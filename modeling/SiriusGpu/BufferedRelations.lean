import SiriusGpu.CudfColumns
import SiriusGpu.PhysicalPlan

/-!
# Buffered relations

A CTE, the cached left side of a delim join and the build sides of the joins keep
the columns of a relation that is sunk and hand them out again. Each sink writes
over what the sink before has left.
-/

namespace BufferedRelations

open ThrowingState ColumnFormat GpuMemory GpuColumns Materialize CudfColumns PhysicalPlan

section Distinct

/-- `cudf_duplicate_elimination`; `getGroups` is what cudf makes of the keys. -/
def cudfDuplicateElimination (getGroups : State → List GPUColumn → List CudfColumn)
    (keys : List GPUColumn) : Action (List GPUColumn) :=
  if keys.head?.map GPUColumn.columnLength = some 0 then
    pure (keys.map fun key =>
      (if key.type = .varchar then
        newStringColumn 0 key.type key.dataWrapper.data key.dataWrapper.offset 0 true none
      else newColumn 0 key.type key.dataWrapper.data none).setUnique key.isUnique)
  else do
    let views ← Proc.collect (fun key =>
      if key.dataWrapper.data.isSome then convertToCudfColumn key
      else Proc.raise (.notImplemented "Group by on non-nullable column not supported")) keys
    let columns ← Proc.read fun s => getGroups s views
    Proc.collect (fun (column, key) => setFromCudfColumn column key.isUnique) (columns.zip views)

/-- The data of two columns, one behind the other; the columns are freed. -/
def combineColumns (width : Nat) (a b : Handle) (countA countB : Nat) :
    Action (Option Handle) :=
  if countA = 0 ∨ countB = 0 then pure none else do
    let bytesA ← load Content.asBytes a
    let bytesB ← load Content.asBytes b
    let combined ← customCudaMalloc
      (.bytes (bytesA.take (countA * width) ++ bytesB.take (countB * width)))
    customCudaFree (some a)
    customCudaFree (some b)
    pure (some combined)

def resolveTypeCombineColumns (width : Nat) (column₁ column₂ : GPUColumn) (a b : Handle) :
    Action GPUColumn := do
  let combined ← combineColumns width a b column₁.columnLength column₂.columnLength
  pure ((newColumn (column₁.columnLength + column₂.columnLength) column₁.type combined
    none).setUnique (column₁.isUnique && column₂.isUnique))

def combineStrings (a b : Handle) (offsetA offsetB : Option Handle)
    (bytesA bytesB countA countB : Nat) : Action (Option Handle × Option Handle) :=
  if countA = 0 ∨ countB = 0 then pure (none, none) else
    match offsetA, offsetB with
    | some offsetA, some offsetB => do
      let charsA ← load Content.asBytes a
      let charsB ← load Content.asBytes b
      let startsA ← load Content.asWords offsetA
      let startsB ← load Content.asWords offsetB
      let combined ← customCudaMalloc (.bytes (charsA.take bytesA ++ charsB.take bytesB))
      let offsets ← customCudaMalloc
        (.words (startsA.take countA ++ (startsB.take (countB + 1)).map (· + bytesA)))
      pure (some combined, some offsets)
    | _, _ => Proc.raise .fault

def resolveTypeCombineStrings (column₁ column₂ : GPUColumn) (a b : Handle) :
    Action GPUColumn := do
  let (combined, offsets) ← combineStrings a b column₁.dataWrapper.offset
    column₂.dataWrapper.offset column₁.dataWrapper.numBytes column₂.dataWrapper.numBytes
    column₁.columnLength column₂.columnLength
  pure ((newStringColumn (column₁.columnLength + column₂.columnLength) .varchar combined
    offsets (column₁.dataWrapper.numBytes + column₂.dataWrapper.numBytes) true none).setUnique
      (column₁.isUnique && column₂.isUnique))

def combine (column₁ column₂ : GPUColumn) (a b : Handle) : Action GPUColumn :=
  match column₁.type with
  | .int32 => resolveTypeCombineColumns 4 column₁ column₂ a b
  | .int64 | .float64 => resolveTypeCombineColumns 8 column₁ column₂ a b
  | .varchar => resolveTypeCombineStrings column₁ column₂ a b
  | _ => Proc.raise (.notImplemented "Unsupported sirius column type in `CombineColumns")

def GPUColumn.withoutRowIds (c : GPUColumn) : GPUColumn :=
  { c with rowIds := none, rowIdCount := 0 }

/-- How a sink's column enters the result of the sinks before. -/
def mergeResult : Option GPUColumn × GPUColumn → Action (Option GPUColumn)
  | (none, column) => pure (some (GPUColumn.withoutRowIds column))
  | (some result, column) =>
    match result.dataWrapper.data, column.dataWrapper.data with
    | some a, some b => do
      let combined ← combine result column a b
      pure (some combined)
    | none, some _ => pure (some (GPUColumn.withoutRowIds column))
    | _, none => pure (some result)

def columnSize (relation : GPUIntermediateRelation) : Nat :=
  match relation.head? with
  | none => 0
  | some c =>
    if c.rowIds.isSome then c.rowIdCount
    else if c.dataWrapper.data.isSome then c.columnLength
    else 0

def outOfBounds : Exception := .internal "Attempted to access index within vector"

def columnAt (relation : GPUIntermediateRelation) (index : Nat) : Action GPUColumn :=
  match relation[index]? with
  | some c => pure c
  | none => Proc.raise outOfBounds

def materializeAt (relation : GPUIntermediateRelation) (index : Nat) : Action GPUColumn := do
  let c ← columnAt relation index
  handleMaterializeExpression c

def eliminateDuplicates (getGroups : State → List GPUColumn → List CudfColumn)
    (relation : GPUIntermediateRelation) (keys : List GPUColumn) : Action (List GPUColumn) :=
  if columnSize relation = 0 then pure keys else
    match keys.head? with
    | none => Proc.raise outOfBounds
    | some key =>
      if 2147483647 < key.columnLength then Proc.raise (.notImplemented
        "Group by column length or aggregate column length is too large for CuDF")
      else cudfDuplicateElimination getGroups keys

/-- `GPUPhysicalGroupedAggregate::Sink` for groups without aggregates. -/
def distinctSink (getGroups : State → List GPUColumn → List CudfColumn) (groups : List Nat)
    (groupByResult : List (Option GPUColumn)) (relation : GPUIntermediateRelation) :
    Action (List (Option GPUColumn)) := do
  let keys ← Proc.collect (materializeAt relation) groups
  let distinct ← eliminateDuplicates getGroups relation keys
  Proc.collect mergeResult (groupByResult.zip distinct)

end Distinct

section HashJoin

/-- A comparison of a join condition; the rest is no equality and no inequality. -/
inductive Comparison
  | equal | notDistinctFrom | notEqual | distinctFrom | other
  deriving DecidableEq, Repr

def Comparison.isEquality : Comparison → Bool
  | .equal | .notDistinctFrom => true
  | _ => false

/-- A join condition, of which the build side reads the column its right side refers to. -/
structure JoinCondition where
  comparison : Comparison
  right : Nat

def reorderConditions (conditions : List JoinCondition) : List JoinCondition :=
  conditions.filter (·.comparison.isEquality) ++ conditions.filter (!·.comparison.isEquality)

structure HashJoin where
  joinType : JoinType
  correlated : Bool
  plannedConditions : List JoinCondition
  rightProjection : List Nat

def HashJoin.conditions (j : HashJoin) : List JoinCondition := reorderConditions j.plannedConditions

def HashJoin.keyColumns (j : HashJoin) : List Nat := j.conditions.map (·.right)

/-- The columns of the projection that are no keys; some joins store the keys alone. -/
def HashJoin.payloadColumns (j : HashJoin) : List Nat :=
  if j.joinType = .anti ∨ j.joinType = .semi ∨ j.joinType = .mark then []
  else j.rightProjection.filter fun column => column ∉ j.keyColumns

/-- The columns that a result of the build side has room for: a key column counts once. -/
def HashJoin.keyRoom (j : HashJoin) : Nat := j.keyColumns.dedup.length

def unsupportedComparison : Exception := .notImplemented "Unsupported comparison type"

/-- How the kernel compares a key; inequality is for the second of two keys. -/
def conditionMode (keys : Nat) (key : Nat) : Comparison → Action Nat
  | .equal | .notDistinctFrom => pure 0
  | .notEqual | .distinctFrom =>
    if key ≠ 1 ∨ keys ≠ 2 then Proc.raise unsupportedComparison else pure 1
  | .other => Proc.raise unsupportedComparison

/-- The kernel reads the keys; the table it writes is not modelled. -/
def buildHashTable (keys : List (Option Handle)) (htLen n : Nat) : Action Unit :=
  if n = 0 ∨ htLen = 0 then pure () else do
    let keysDev ← customCudaMalloc (.words [])
    Proc.each (fun key =>
      match key with
      | some data => load Content.asBytes data >>= fun _ => pure ()
      | none => Proc.raise .fault) keys
    customCudaFree (some keysDev)

def resolveTypeBuildExpression (j : HashJoin) (keys : List GPUColumn) (htLen size : Nat) :
    Action Unit := do
  let _ ← Proc.collect (fun (condition, key) =>
    conditionMode j.conditions.length key condition.comparison) j.conditions.zipIdx
  match j.joinType with
  | .inner | .semi | .mark | .right | .rightSemi | .rightAnti =>
    buildHashTable (keys.map fun key => key.dataWrapper.data) htLen size
  | _ => Proc.raise (.notImplemented "Unsupported join type")

def handleBuildExpression (j : HashJoin) (keys : List GPUColumn) (key : GPUColumn)
    (htLen : Nat) : Action Unit :=
  match key.type with
  | .int32 | .int64 | .float64 =>
    resolveTypeBuildExpression j keys htLen key.columnLength
  | _ => Proc.raise (.notImplemented "Unsupported sirius column type in `HandleBuildExpression`")

/-- The columns of a row of the hash table beside the keys. -/
def tableColumns : JoinType → Option Nat
  | .inner | .semi | .mark => some 1
  | .right | .rightSemi | .rightAnti => some 2
  | _ => none

def allocateTable (j : HashJoin) (htLen : Nat) : Action (Option Handle) :=
  match tableColumns j.joinType with
  | some more =>
    if htLen = 0 then pure none else do
      let table ← customCudaMalloc
        (.words (List.replicate (htLen * (j.conditions.length + more)) 0))
      pure (some table)
  | none => pure none

/-- What the sink of a hash join leaves for the probe side. -/
structure BuildSide where
  columns : List GPUColumn
  materializedKeys : List GPUColumn
  hashTable : Option Handle
  uniqueBuildKeys : Bool

def uniqueAt (relation : GPUIntermediateRelation) (index : Nat) : Bool :=
  relation[index]?.any GPUColumn.isUnique

/-- An inner join leaves the build to the probe. -/
def buildUnlessInner (j : HashJoin) (keys : List GPUColumn) (key : GPUColumn) (htLen : Nat) :
    Action Unit :=
  if j.joinType = .inner then pure () else handleBuildExpression j keys key htLen

/-- A key column that two conditions share has no second place in the result. -/
def checkRoom (j : HashJoin) : Action Unit :=
  if j.keyRoom < j.keyColumns.length then Proc.raise outOfBounds else pure ()

/-- The rest of the sink of a hash join, from the materialized keys on. -/
def buildSide (j : HashJoin) (uniqueBuildKeys : Bool) (relation : GPUIntermediateRelation)
    (keys : List GPUColumn) : Action BuildSide :=
  match keys.head? with
  | none => Proc.raise outOfBounds
  | some key => do
    let htLen := key.columnLength * 2
    let hashTable ← allocateTable j htLen
    buildUnlessInner j keys key htLen
    checkRoom j
    let columns ← Proc.collect (columnAt relation) (j.keyColumns ++ j.payloadColumns)
    pure {
      columns := columns
      materializedKeys := keys
      hashTable := hashTable
      uniqueBuildKeys := uniqueBuildKeys || j.keyColumns.any (uniqueAt relation) }

/-- `GPUPhysicalHashJoin::Sink`; the flag of unique keys is never taken back. -/
def hashJoinSink (j : HashJoin) (uniqueBuildKeys : Bool) (relation : GPUIntermediateRelation) :
    Action BuildSide :=
  if j.correlated ∧ j.joinType = .mark then
    Proc.raise (.notImplemented "Correlated MARK join not supported yet")
  else do
    let keys ← Proc.collect (materializeAt relation) j.keyColumns
    buildSide j uniqueBuildKeys relation keys

end HashJoin

section Operators

/-- A copy of a column by its length, its type and its data. -/
def GPUColumn.copied (c : GPUColumn) : GPUColumn :=
  (newColumn c.columnLength c.type c.dataWrapper.data none).setUnique c.isUnique

def cteSink (relation : GPUIntermediateRelation) : Action (List GPUColumn) :=
  Proc.collect (fun c => do
    let copy := GPUColumn.copied c
    lockAllocation copy.dataWrapper.data
    lockAllocation copy.rowIds
    if copy.type = .varchar then lockAllocation copy.dataWrapper.offset
    pure copy) relation

/-- `GPUPhysicalColumnDataScan::GetData` -/
def columnDataScan (stored : List GPUColumn) : GPUIntermediateRelation :=
  stored.map GPUColumn.copied

def nestedLoopJoinSink (relation : GPUIntermediateRelation) : List GPUColumn :=
  relation.map fun c =>
    { newColumn c.columnLength c.type c.dataWrapper.data none with
      rowIds := c.rowIds
      rowIdCount := c.rowIdCount }

/-- The operators that keep a relation: the sink of a CTE, the left delim join with the groups
of its distinct and what cudf makes of them, and the build sides of the joins. -/
inductive Operator
  | cte
  | leftDelimJoin (groups : List Nat) (getGroups : State → List GPUColumn → List CudfColumn)
  | nestedLoopJoin
  | hashJoin (j : HashJoin)

/-- What an operator keeps between its sinks. -/
structure Stored where
  columns : List GPUColumn
  groupByResult : List (Option GPUColumn)
  uniqueBuildKeys : Bool

def Operator.initial : Operator → Stored
  | .leftDelimJoin groups _ => ⟨[], groups.map fun _ => none, false⟩
  | _ => ⟨[], [], false⟩

def Operator.sink (op : Operator) (stored : Stored) (relation : GPUIntermediateRelation) :
    Action Stored :=
  match op with
  | .cte => do
    let columns ← cteSink relation
    pure { stored with columns := columns }
  | .leftDelimJoin groups getGroups => do
    let distinct ← distinctSink getGroups groups stored.groupByResult relation
    pure { stored with columns := relation, groupByResult := distinct }
  | .nestedLoopJoin => pure { stored with columns := nestedLoopJoinSink relation }
  | .hashJoin j => do
    let built ← hashJoinSink j stored.uniqueBuildKeys relation
    pure { stored with columns := built.columns, uniqueBuildKeys := built.uniqueBuildKeys }

/-- The columns later read: the scans copy them, the joins read what they keep. -/
def Operator.scan (op : Operator) (stored : Stored) : GPUIntermediateRelation :=
  match op with
  | .cte | .leftDelimJoin _ _ => columnDataScan stored.columns
  | .nestedLoopJoin | .hashJoin _ => stored.columns

end Operators

end BufferedRelations
