import SiriusGpu.CacheLayout
import SiriusGpu.PipelineSchedule

/-!
# From gpu_processing to a result

Binding generates the physical plan and keeps an exception as a flag. Processing
runs the plan on the GPU unless the flag is set, and asks DuckDB when what comes
back is an error. What the phases do to the buffers is left open, and each may
throw anywhere: what counts is which of the calls between them are guarded.
-/

namespace GpuContext

open ThrowingState BufferManager

section Model

/-- What the buffer manager keeps for the query that runs. -/
structure Processing where
  gpuProcessingPointer : Nat
  allocationTable : List (Nat × Nat)
  lockedAllocationTable : List (Nat × Nat)
  rmmStoredBuffers : List Nat
  cache : State

def Processing.resetBuffer (p : Processing) : Processing :=
  ⟨0, [], [], [], BufferManager.resetBuffer p.cache⟩

/-- Nothing is left that a reset would take away. -/
def Processing.IsReset (p : Processing) : Prop := p.resetBuffer = p

variable {Plan Rows ε : Type}

/-- A call of `gpu_processing`, by what its phases do; `duckdb` is the result of the plain
query. -/
structure Call (Plan Rows ε : Type) where
  bufferIsInitialized : Bool
  gpuGeneratePhysicalPlan : Proc Processing ε Plan
  gpuBindPreparedStatementParameters : Proc Processing ε Unit
  executorInitialize : Plan → Proc Processing ε Unit
  executorExecute : Plan → Proc Processing ε Unit
  executorGetResult : Plan → Proc Processing ε Rows
  duckdb : Rows

/-- `GPUTableFunctionData`: the prepared statement, if any, and the error flag. -/
structure FunctionData (Plan : Type) where
  gpuPrepared : Option Plan
  planError : Bool

variable (call : Call Plan Rows ε)

def Call.gpuProcessingBind : Proc Processing ε (FunctionData Plan) :=
  if call.bufferIsInitialized then do
    match ← call.gpuGeneratePhysicalPlan.attempt with
    | .ok plan => pure ⟨some plan, false⟩
    | .error _ => pure ⟨none, true⟩
  else pure ⟨none, false⟩

/-- A pending result has an error or none; this one never has. -/
def Call.gpuPendingStatementInternal (plan : Plan) : Proc Processing ε (Except ε Unit) := do
  call.gpuBindPreparedStatementParameters
  call.executorInitialize plan
  pure (.ok ())

def checkExecutableInternal (pending : Except ε Unit) : Proc Processing ε Unit :=
  match pending with
  | .ok _ => pure ()
  | .error e => Proc.raise e

/-- The buffers are reset when the query ends. -/
def Call.fetchResultInternal (plan : Plan) : Proc Processing ε (Except ε Rows) := do
  let rows ← call.executorGetResult plan
  Proc.update Processing.resetBuffer
  pure (.ok rows)

def Call.gpuExecutePendingQueryResult (plan : Plan) (pending : Except ε Unit) :
    Proc Processing ε (Except ε Rows) := do
  checkExecutableInternal pending
  match ← (call.executorExecute plan).attempt with
  | .error e => do
    Proc.update Processing.resetBuffer
    pure (.error e)
  | .ok _ =>
    match pending with
    | .error e => pure (.error e)
    | .ok _ => call.fetchResultInternal plan

def Call.gpuExecuteQuery (plan : Plan) : Proc Processing ε (Except ε Rows) := do
  let pending ← call.gpuPendingStatementInternal plan
  match pending with
  | .error e => pure (.error e)
  | .ok _ => call.gpuExecutePendingQueryResult plan pending

def Call.gpuProcessingFunction (data : FunctionData Plan) : Proc Processing ε Rows :=
  match data.planError, data.gpuPrepared with
  | false, some plan => do
    match ← call.gpuExecuteQuery plan with
    | .ok rows => pure rows
    | .error _ => pure call.duckdb
  | _, _ => pure call.duckdb

/-- The whole call, to its first result. -/
def Call.gpuProcessing : Proc Processing ε Rows := do
  let data ← call.gpuProcessingBind
  call.gpuProcessingFunction data

end Model

section Phases

inductive Phase
  | generatePlan | pendingStatement | execute | fetchResult
  deriving DecidableEq, Repr

variable {Plan Rows ε : Type} {call : Call Plan Rows ε} {p p' : Processing} {phase : Phase}

/-- The phases before this one return, and it throws and leaves the buffers so. -/
inductive Raised (call : Call Plan Rows ε) (p : Processing) : Phase → Processing → Prop
  | generatePlan {e p'} (thrown : call.gpuGeneratePhysicalPlan p = (.error e, p')) :
    Raised call p .generatePlan p'
  | pendingStatement {plan planned e p'}
    (generated : call.gpuGeneratePhysicalPlan p = (.ok plan, planned))
    (thrown : call.gpuPendingStatementInternal plan planned = (.error e, p')) :
    Raised call p .pendingStatement p'
  | execute {plan planned pending ready e p'}
    (generated : call.gpuGeneratePhysicalPlan p = (.ok plan, planned))
    (prepared : call.gpuPendingStatementInternal plan planned = (.ok pending, ready))
    (thrown : call.executorExecute plan ready = (.error e, p')) : Raised call p .execute p'
  | fetchResult {plan planned pending ready done e p'}
    (generated : call.gpuGeneratePhysicalPlan p = (.ok plan, planned))
    (prepared : call.gpuPendingStatementInternal plan planned = (.ok pending, ready))
    (executed : call.executorExecute plan ready = (.ok (), done))
    (thrown : call.executorGetResult plan done = (.error e, p')) :
    Raised call p .fetchResult p'

/-- The call ends with the result of the plain query, and the buffers are reset. -/
def FallsBack (call : Call Plan Rows ε) (p : Processing) : Prop :=
  (call.gpuProcessing p).1 = .ok call.duckdb ∧ (call.gpuProcessing p).2.IsReset

lemma resetBuffer_isReset (p : Processing) : p.resetBuffer.IsReset := by
  have tables : ∀ slot : Slot, slot.resetRowIds.resetRowIds = slot.resetRowIds := by
    rintro ⟨name, column⟩
    cases column <;> rfl
  simp only [Processing.IsReset, Processing.resetBuffer, BufferManager.resetBuffer,
    Option.map_map, List.map_map, Function.comp_def, tables]

lemma pending_ok {plan : Plan} {pending : Except ε Unit}
    (prepared : call.gpuPendingStatementInternal plan p = (.ok pending, p')) :
    pending = .ok () := by
  unfold Call.gpuPendingStatementInternal at prepared
  rcases bound : call.gpuBindPreparedStatementParameters p with ⟨result, q⟩
  cases result with
  | error e =>
    rw [Proc.bind_error bound] at prepared
    cases prepared
  | ok _ =>
    rw [Proc.bind_ok bound] at prepared
    rcases initialized : call.executorInitialize plan q with ⟨result, r⟩
    cases result with
    | error e =>
      rw [Proc.bind_error initialized] at prepared
      cases prepared
    | ok _ =>
      rw [Proc.bind_ok initialized] at prepared
      cases prepared
      rfl

/-- An exception while the plan is generated sets the flag, and leaves the buffers as they are. -/
theorem gpuProcessing_generatePlan {e : ε} (initialized : call.bufferIsInitialized = true)
    (thrown : call.gpuGeneratePhysicalPlan p = (.error e, p')) :
    call.gpuProcessing p = (.ok call.duckdb, p') := by
  have bind : call.gpuProcessingBind p = (.ok ⟨none, true⟩, p') := by
    unfold Call.gpuProcessingBind
    rw [if_pos initialized, Proc.bind_ok (Proc.attempt_eq thrown)]
    rfl
  unfold Call.gpuProcessing
  rw [Proc.bind_ok bind]
  rfl

/-- What the query gives becomes the result, unless it is an error. -/
lemma gpuProcessing_generated {plan : Plan} (initialized : call.bufferIsInitialized = true)
    (generated : call.gpuGeneratePhysicalPlan p = (.ok plan, p')) :
    call.gpuProcessing p = match call.gpuExecuteQuery plan p' with
      | (.ok (.ok rows), p'') => (.ok rows, p'')
      | (.ok (.error _), p'') => (.ok call.duckdb, p'')
      | (.error e, p'') => (.error e, p'') := by
  have bind : call.gpuProcessingBind p = (.ok ⟨some plan, false⟩, p') := by
    unfold Call.gpuProcessingBind
    rw [if_pos initialized, Proc.bind_ok (Proc.attempt_eq generated)]
    rfl
  unfold Call.gpuProcessing
  rw [Proc.bind_ok bind]
  simp only [Call.gpuProcessingFunction]
  rcases query : call.gpuExecuteQuery plan p' with ⟨result, p''⟩
  rcases result with e | rows | e
  · rw [Proc.bind_error query]
  · rw [Proc.bind_ok query]
    rfl
  · rw [Proc.bind_ok query]
    rfl

theorem gpuExecuteQuery_pendingStatement {plan : Plan} {e : ε}
    (thrown : call.gpuPendingStatementInternal plan p = (.error e, p')) :
    call.gpuExecuteQuery plan p = (.error e, p') := Proc.bind_error thrown

lemma gpuExecuteQuery_prepared {plan : Plan} {pending : Except ε Unit}
    (prepared : call.gpuPendingStatementInternal plan p = (.ok pending, p')) :
    call.gpuExecuteQuery plan p = call.gpuExecutePendingQueryResult plan (.ok ()) p' := by
  obtain rfl := pending_ok prepared
  exact Proc.bind_ok prepared

theorem gpuExecutePendingQueryResult_execute {plan : Plan} {e : ε}
    (thrown : call.executorExecute plan p = (.error e, p')) :
    call.gpuExecutePendingQueryResult plan (.ok ()) p = (.ok (.error e), p'.resetBuffer) := by
  have checked : checkExecutableInternal (.ok () : Except ε Unit) p = (.ok (), p) := rfl
  unfold Call.gpuExecutePendingQueryResult
  rw [Proc.bind_ok checked, Proc.bind_ok (Proc.attempt_eq thrown)]
  rfl

theorem gpuExecutePendingQueryResult_executed {plan : Plan}
    (executed : call.executorExecute plan p = (.ok (), p')) :
    call.gpuExecutePendingQueryResult plan (.ok ()) p = call.fetchResultInternal plan p' := by
  have checked : checkExecutableInternal (.ok () : Except ε Unit) p = (.ok (), p) := rfl
  unfold Call.gpuExecutePendingQueryResult
  rw [Proc.bind_ok checked, Proc.bind_ok (Proc.attempt_eq executed)]

/-- Without an exception the call ends with the rows of the GPU, and the buffers are reset. -/
theorem gpuProcessing_returns {plan : Plan} {planned ready done : Processing}
    {pending : Except ε Unit} {rows : Rows} (initialized : call.bufferIsInitialized = true)
    (generated : call.gpuGeneratePhysicalPlan p = (.ok plan, planned))
    (prepared : call.gpuPendingStatementInternal plan planned = (.ok pending, ready))
    (executed : call.executorExecute plan ready = (.ok (), done))
    (fetched : call.executorGetResult plan done = (.ok rows, p')) :
    call.gpuProcessing p = (.ok rows, p'.resetBuffer) := by
  have fetch : call.fetchResultInternal plan done = (.ok (.ok rows), p'.resetBuffer) :=
    Proc.bind_ok fetched
  rw [gpuProcessing_generated initialized generated, gpuExecuteQuery_prepared prepared,
    gpuExecutePendingQueryResult_executed executed, fetch]

/-- The fallback covers what `Execute` throws. An exception while the plan is generated is
covered, too, but nothing resets the buffers; the others leave the call. -/
theorem fallsBack_iff (call : Call Plan Rows ε) (p : Processing)
    (initialized : call.bufferIsInitialized = true) (raised : Raised call p phase p') :
    FallsBack call p ↔ phase = .execute ∨ (phase = .generatePlan ∧ p'.IsReset) := by
  unfold FallsBack
  cases raised with
  | generatePlan thrown =>
    rw [gpuProcessing_generatePlan initialized thrown]
    simp
  | pendingStatement generated thrown =>
    rw [gpuProcessing_generated initialized generated,
      gpuExecuteQuery_pendingStatement thrown]
    simp
  | execute generated prepared thrown =>
    rw [gpuProcessing_generated initialized generated, gpuExecuteQuery_prepared prepared,
      gpuExecutePendingQueryResult_execute thrown]
    simp [resetBuffer_isReset]
  | fetchResult generated prepared executed thrown =>
    have fetch : call.fetchResultInternal _ _ = (.error _, p') := Proc.bind_error thrown
    rw [gpuProcessing_generated initialized generated, gpuExecuteQuery_prepared prepared,
      gpuExecutePendingQueryResult_executed executed, fetch]
    simp

end Phases

section Witness

open PhysicalPlan PipelineSchedule

def raiseBuildError : PipelineBuild.BuildError → Exception
  | .internalException message => .internal message
  | .notImplementedException message => .internal message
  | .assertion => .internal "assertion"

/-- The phases of a query on an empty cache, given what the executor does. -/
def callOf (plan : PhysicalPlan.Plan) (execute : Proc Processing Exception Unit) :
    Call PhysicalPlan.Plan (List Nat) Exception where
  bufferIsInitialized := true
  gpuGeneratePhysicalPlan := pure plan
  gpuBindPreparedStatementParameters := pure ()
  executorInitialize := fun plan =>
    match buildPlan plan with
    | .ok _ => pure ()
    | .error e => Proc.raise (raiseBuildError e)
  executorExecute := fun _ => execute
  executorGetResult := fun _ => pure [1]
  duckdb := [1]

def idle : Processing := ⟨0, [], [], [], initial⟩

/-- A right delim join whose wrapped join is no hash join. -/
def delimOverNestedLoop : PhysicalPlan.Plan :=
  .resultCollector 0 (.rightDelimJoin 1 2 [] (.scan 3 .tableScan) 4 (.nestedLoopJoin .inner) 5
    (.scan 6 .tableScan))

theorem not_every_exception_falls_back :
    ¬ ∀ (call : Call PhysicalPlan.Plan (List Nat) Exception) (p : Processing) (phase : Phase)
      (p' : Processing), call.bufferIsInitialized = true → Raised call p phase p' →
      FallsBack call p := by
  intro all
  have returned := (all (callOf delimOverNestedLoop (pure ())) idle .pendingStatement idle rfl
    (.pendingStatement rfl rfl)).1
  cases returned

/-- An exception in `Execute`, after a processing buffer has been allocated. -/
theorem outOfMemory_falls_back :
    FallsBack (callOf (.resultCollector 0 (.scan 1 .tableScan))
        (Proc.update (fun p => { p with allocationTable := [(1, 256)] }) >>= fun _ =>
          Proc.raise .external)) idle ↔
      Phase.execute = .execute ∨ (Phase.execute = .generatePlan ∧
        (⟨0, [(1, 256)], [], [], initial⟩ : Processing).IsReset) :=
  fallsBack_iff _ _ rfl (.execute rfl rfl rfl)

end Witness

end GpuContext
