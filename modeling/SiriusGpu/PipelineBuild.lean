import SiriusGpu.PhysicalPlan

/-!
# Meta-pipelines and their construction

Pipelines are built while the plan is walked top-down: operators are appended
to the current pipeline, which is always the base pipeline of its meta-pipeline,
and are reversed when the whole tree is built. Shared pointers to pipelines are
the numbers under which they were created. Batch indexes are left out.
-/

namespace PipelineBuild

open PhysicalPlan

structure Pipeline where
  id : Nat
  source : Option Operator
  operators : List Operator
  sink : Option Operator
  dependencies : List Nat
  deriving DecidableEq, Repr

/-- `pipelines` is `base :: childPipelines`; `dependencies` are those inside the group. -/
structure MetaPipeline where
  sink : Option Operator
  base : Pipeline
  childPipelines : List Pipeline
  dependencies : List (Nat × List Nat)
  children : List MetaPipeline

def MetaPipeline.pipelines (m : MetaPipeline) : List Pipeline := m.base :: m.childPipelines

/-- The build state: the next pipeline's number, and what scans of shared data depend on.
A delim scan's entry keeps the sink that is read back from the pipeline it names. -/
structure BuildState where
  nextId : Nat
  delimJoinDependencies : List (OpId × Nat × Operator)
  cteDependencies : List (OpId × Nat)
  deriving DecidableEq, Repr

inductive BuildError
  | internalException (message : String)
  | notImplementedException (message : String)
  | assertion
  deriving DecidableEq, Repr

abbrev Builder := MetaPipeline → BuildState → Except BuildError (MetaPipeline × BuildState)

section Operations

def createMetaPipeline (sink : Option Operator) (id : Nat) : MetaPipeline :=
  ⟨sink, ⟨id, none, [], sink, []⟩, [], [], []⟩

def MetaPipeline.setPipelineSource (m : MetaPipeline) (op : Operator) : MetaPipeline :=
  { m with base := { m.base with source := some op } }

def MetaPipeline.addPipelineOperator (m : MetaPipeline) (op : Operator) : MetaPipeline :=
  { m with base := { m.base with operators := m.base.operators ++ [op] } }

def MetaPipeline.addDependency (m : MetaPipeline) (pipeline : Nat) : MetaPipeline :=
  { m with base := { m.base with dependencies := m.base.dependencies ++ [pipeline] } }

def MetaPipeline.pushChild (m child : MetaPipeline) : MetaPipeline :=
  { m with children := m.children ++ [child] }

/-- The child depends on nothing yet and shares the sink; `current` waits for its base. -/
def createChildMetaPipeline (op : Operator) (build : Builder) : Builder := fun m st => do
  let (child, st') ←
    build (createMetaPipeline (some op) st.nextId) { st with nextId := st.nextId + 1 }
  pure ((m.addDependency st.nextId).pushChild child, st')

/-- The pipelines after `start`, without `dependant`. -/
def addDependenciesFrom (pipelines : List Nat) (dependant start : Nat) : List Nat :=
  ((pipelines.dropWhile (· ≠ start)).drop 1).filter (· ≠ dependant)

def executorCreateChildPipeline (current : Pipeline) (op : Operator) (id : Nat) : Pipeline :=
  { id := id
    source := some op
    operators := current.operators.takeWhile (·.id ≠ op.id)
    sink := current.sink
    dependencies := [] }

def MetaPipeline.createChildPipeline (m : MetaPipeline) (op : Operator)
    (lastPipeline id : Nat) : MetaPipeline :=
  let child := executorCreateChildPipeline m.base op id
  let childPipelines := m.childPipelines ++ [child]
  let created := addDependenciesFrom ((m.base :: childPipelines).map Pipeline.id) id lastPipeline
  { m with
    childPipelines := childPipelines
    dependencies := m.dependencies ++ [(id, created ++ [m.base.id])] }

def MetaPipeline.lastPipeline (m : MetaPipeline) : Nat :=
  ((m.childPipelines.getLast?).getD m.base).id

end Operations

section Build

def buildRhsOf (op : Operator) : Option Builder → Builder
  | some build => createChildMetaPipeline op build
  | none => fun m st => pure (m, st)

/-- `asSource` is the cast at the end of the two `BuildJoinPipelines`, then `IsSource`. -/
def buildJoinPipelines (op : Operator) (asSource : Except BuildError Bool)
    (buildRhs : Option Builder) (buildLhs : Builder) : Builder := fun m st => do
  let m := m.addPipelineOperator op
  let lastPipeline := m.lastPipeline
  let (m, st) ← buildRhsOf op buildRhs m st
  let (m, st) ← buildLhs m st
  if ← asSource then
    pure (m.createChildPipeline op lastPipeline st.nextId, { st with nextId := st.nextId + 1 })
  else pure (m, st)

/-- The cast in `GPUPhysicalHashJoin::BuildJoinPipelines`. -/
def castHashJoin : JoinKind → Except BuildError Bool
  | kind@(.hashJoin _) => pure kind.isSource
  | .nestedLoopJoin _ => throw (.internalException
      "Failed to cast physical operator to type - physical operator type mismatch")

def registerCteScans (scans : List OpId) (pipeline : Nat) (st : BuildState) : BuildState :=
  { st with cteDependencies := st.cteDependencies ++ scans.map (·, pipeline) }

def registerDelimScans (scans : List OpId) (pipeline : Nat) (sink : Operator)
    (st : BuildState) : BuildState :=
  { st with
    delimJoinDependencies := st.delimJoinDependencies ++ scans.map (·, pipeline, sink) }

/-- The aggregate a delim join feeds besides its join. -/
def delimDistinct (sink : Operator) : Option Operator :=
  match sink.type with
  | .leftDelimJoin distinct _ | .rightDelimJoin distinct _ _ => some ⟨distinct, .unary .hashGroupBy⟩
  | _ => none

def lookup {α : Type} (entries : List (OpId × α)) (op : OpId) : Option α :=
  (entries.find? (·.1 = op)).map (·.2)

def buildPipelines : Plan → Builder
  | .scan op scanType => fun m st => pure (m.setPipelineSource ⟨op, .scan scanType⟩, st)
  | .delimScan op => fun m st =>
    match lookup st.delimJoinDependencies op with
    | none => throw .assertion
    | some (pipeline, sink) =>
      match delimDistinct sink with
      | none => throw .assertion
      | some distinct => pure ((m.addDependency pipeline).setPipelineSource distinct, st)
  | .cteScan op => fun m st =>
    match lookup st.cteDependencies op with
    | none => throw .assertion
    | some pipeline => pure ((m.addDependency pipeline).setPipelineSource ⟨op, .cteScan⟩, st)
  | .recursiveCteScan _ => fun _ _ =>
    throw (.notImplementedException "Recursive CTE scan not implemented for GPU")
  | .unary op unaryType child => fun m st =>
    if unaryType.isSink then
      createChildMetaPipeline ⟨op, .unary unaryType⟩ (buildPipelines child)
        (m.setPipelineSource ⟨op, .unary unaryType⟩) st
    else buildPipelines child (m.addPipelineOperator ⟨op, .unary unaryType⟩) st
  | .join op kind lhs rhs =>
    buildJoinPipelines ⟨op, .join kind⟩ (pure kind.isSource) (some (buildPipelines rhs))
      (buildPipelines lhs)
  | .cte op cteScans definition query => fun m st => do
    let (m, st') ← createChildMetaPipeline ⟨op, .cte cteScans⟩ (buildPipelines definition) m st
    buildPipelines query m (registerCteScans cteScans st.nextId st')
  | .leftDelimJoin op distinct delimScans lhs joinOp kind cachedScan rhs => fun m st => do
    let sink : Operator := ⟨op, .leftDelimJoin distinct cachedScan⟩
    let (m, st') ← createChildMetaPipeline sink (buildPipelines lhs) m st
    buildJoinPipelines ⟨joinOp, .join kind⟩ (pure kind.isSource) (some (buildPipelines rhs))
      (fun m st => pure (m.setPipelineSource ⟨cachedScan, .scan .columnDataScan⟩, st))
      m (registerDelimScans delimScans st.nextId sink st')
  | .rightDelimJoin op distinct delimScans rhs joinOp kind _ lhs => fun m st => do
    let sink : Operator := ⟨op, .rightDelimJoin distinct joinOp kind⟩
    let (m, st') ← createChildMetaPipeline sink (buildPipelines rhs) m st
    buildJoinPipelines ⟨joinOp, .join kind⟩ (castHashJoin kind) none (buildPipelines lhs)
      m (registerDelimScans delimScans st.nextId sink st')
  | .resultCollector op plan => fun m st =>
    createChildMetaPipeline ⟨op, .resultCollector⟩ (buildPipelines plan)
      (m.setPipelineSource ⟨op, .resultCollector⟩) st

end Build

section Collect

mutual
/-- `GetMetaPipelines` with `recursive` set and `skip` unset. -/
def MetaPipeline.getMetaPipelines : MetaPipeline → List MetaPipeline
  | m@⟨_, _, _, _, children⟩ => m :: getMetaPipelinesOf children

def getMetaPipelinesOf : List MetaPipeline → List MetaPipeline
  | [] => []
  | child :: rest => child.getMetaPipelines ++ getMetaPipelinesOf rest
end

def Pipeline.ready (p : Pipeline) : Pipeline := { p with operators := p.operators.reverse }

mutual
def MetaPipeline.ready : MetaPipeline → MetaPipeline
  | ⟨sink, base, childPipelines, dependencies, children⟩ =>
    ⟨sink, base.ready, childPipelines.map Pipeline.ready, dependencies, readyAll children⟩

def readyAll : List MetaPipeline → List MetaPipeline
  | [] => []
  | child :: rest => child.ready :: readyAll rest
end

/-- The meta-pipelines below one, the recursive collection that skips it. -/
def MetaPipeline.descendants (m : MetaPipeline) : List MetaPipeline := getMetaPipelinesOf m.children

theorem getMetaPipelinesOf_append (xs ys : List MetaPipeline) :
    getMetaPipelinesOf (xs ++ ys) = getMetaPipelinesOf xs ++ getMetaPipelinesOf ys := by
  induction xs with
  | nil => rfl
  | cons x xs ih => simp only [List.cons_append, getMetaPipelinesOf, ih, List.append_assoc]

theorem getMetaPipelines_eq (m : MetaPipeline) : m.getMetaPipelines = m :: m.descendants := by
  cases m
  rfl

mutual
theorem getMetaPipelines_ready : ∀ m : MetaPipeline,
    m.ready.getMetaPipelines = m.getMetaPipelines.map MetaPipeline.ready
  | ⟨sink, base, childPipelines, dependencies, children⟩ => by
    simp only [MetaPipeline.ready, MetaPipeline.getMetaPipelines, List.map_cons,
      getMetaPipelinesOf_ready children]

theorem getMetaPipelinesOf_ready : ∀ ms : List MetaPipeline,
    getMetaPipelinesOf (readyAll ms) = (getMetaPipelinesOf ms).map MetaPipeline.ready
  | [] => rfl
  | m :: ms => by
    simp only [readyAll, getMetaPipelinesOf, List.map_append, getMetaPipelines_ready m,
      getMetaPipelinesOf_ready ms]
end

theorem descendants_ready (m : MetaPipeline) :
    m.ready.descendants = m.descendants.map MetaPipeline.ready := by
  cases m
  exact getMetaPipelinesOf_ready _

@[simp] theorem ready_sink (m : MetaPipeline) : m.ready.sink = m.sink := by cases m; rfl

@[simp] theorem ready_base (m : MetaPipeline) : m.ready.base = m.base.ready := by cases m; rfl

@[simp] theorem ready_dependencies (m : MetaPipeline) :
    m.ready.dependencies = m.dependencies := by
  cases m; rfl

@[simp] theorem ready_pipelines (m : MetaPipeline) :
    m.ready.pipelines = m.pipelines.map Pipeline.ready := by
  cases m; rfl

@[simp] theorem descendants_pushChild (m child : MetaPipeline) :
    (m.pushChild child).descendants = m.descendants ++ child :: child.descendants := by
  simp only [MetaPipeline.descendants, MetaPipeline.pushChild, getMetaPipelinesOf_append,
    getMetaPipelinesOf, List.append_nil, getMetaPipelines_eq]

end Collect

end PipelineBuild
