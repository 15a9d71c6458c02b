import Mathlib
import SiriusGpu.GpuContext

/-!
# Calls that fail, one after another

A call plans, prepares, executes and hands over its result, and may fail in each
of these. Planning constructs the operators; of these a table scan allocates in the
processing region of the CPU, and a list of values in that of the GPU, too. The
buffers are reset when execution has failed and when a result has been handed over,
and at no other time.
-/

namespace FailedCalls

open ThrowingState BufferManager GpuContext

section Model

/-- What `CreatePlan(LogicalExpressionGet)` asks of an expression. -/
inductive Expression
  | bigintConstant | otherConstant | other
  deriving DecidableEq, Repr

/-- What constructs an operator of the plan: most allocate nothing, some are not supported. -/
inductive Construct
  | operator
  | tableScan (columnIds : Nat)
  | expressionGet (expressions : List (List Expression))
  | unsupported (e : Exception)

/-- The sizes of the regions, and where the memory resource puts a block, unless it throws. -/
structure Allocators where
  config : Config
  allocate : Processing → Nat → Option Nat

def onCache {α : Type} (x : Action α) : Proc Processing Exception α := fun p =>
  ((x p.cache).1, { p with cache := (x p.cache).2 })

/-- A block of the processing region of the GPU. -/
def customCudaMalloc (a : Allocators) (bytes : Nat) : Proc Processing Exception Unit := fun p =>
  let alloc := padded bytes
  match a.allocate p alloc with
  | none => (.error .external, p)
  | some ptr =>
    if ptr = 0 then (.error (.invalidInput "Pointer is nullptr"), p)
    else if ptr ∈ p.allocationTable.map Prod.fst then
      (.error (.invalidInput "Pointer already exists in allocation table"), p)
    else (.ok (), { p with allocationTable := (ptr, alloc) :: p.allocationTable })

/-- `column_size`, `mask_size` and `already_cached` of a scan. -/
def constructTableScan (a : Allocators) (columnIds : Nat) : Proc Processing Exception Unit :=
  if columnIds = 0 then Proc.raise (.internal "back called on an empty vector")
  else do
    onCache (customCudaHostAlloc a.config (8 * columnIds))
    onCache (customCudaHostAlloc a.config (8 * columnIds))
    onCache (customCudaHostAlloc a.config columnIds)

/-- A row of a list of values: `h_data` and `d_data`, before its expression is looked at. -/
def createExpressionRow (a : Allocators) (row : List Expression) :
    Proc Processing Exception Unit :=
  if 1 < row.length then Proc.raise (.notImplemented "Expression get not supported")
  else do
    onCache (customCudaHostAlloc a.config 8)
    customCudaMalloc a 8
    match row.head? with
    | some .bigintConstant => onCache outside
    | some .otherConstant =>
      Proc.raise (.invalidInput "Expression get only supports BIGINT constants")
    | some .other => Proc.raise (.notImplemented "Expression get not supported")
    | none => Proc.raise (.internal "Attempted to access index within vector")

def construct (a : Allocators) : Construct → Proc Processing Exception Unit
  | .operator => pure ()
  | .tableScan columnIds => constructTableScan a columnIds
  | .expressionGet expressions => Proc.each (createExpressionRow a) expressions
  | .unsupported e => Proc.raise e

/-- A call by its points of failure. Execution may do to the buffers what it wants. -/
structure Query (Rows : Type) where
  constructs : List Construct
  pendingError : Option Exception
  execute : Proc Processing Exception Unit
  result : Except Exception Rows
  duckdb : Rows

variable {Rows : Type}

def orRaise {α : Type} : Except Exception α → Proc Processing Exception α
  | .ok a => pure a
  | .error e => Proc.raise e

def Query.call (a : Allocators) (q : Query Rows) : Call Unit Rows Exception where
  bufferIsInitialized := true
  gpuGeneratePhysicalPlan := Proc.each (construct a) q.constructs
  gpuBindPreparedStatementParameters := pure ()
  executorInitialize := fun _ => orRaise (q.pendingError.elim (.ok ()) .error)
  executorExecute := fun _ => q.execute
  executorGetResult := fun _ => orRaise q.result
  duckdb := q.duckdb

def step (a : Allocators) (p : Processing) (q : Query Rows) : Processing :=
  ((q.call a).gpuProcessing p).2

def run (a : Allocators) (queries : List (Query Rows)) (p : Processing) : Processing :=
  queries.foldl (step a) p

/-- What a query keeps in the processing regions. Contents of these regions are contents of what
is allocated in them. -/
structure ProcessingState where
  gpuProcessingPointer : Nat
  cpuProcessingPointer : Nat
  allocationTable : List (Nat × Nat)
  lockedAllocationTable : List (Nat × Nat)
  rmmStoredBuffers : List Nat
  deriving DecidableEq

def processingState (p : Processing) : ProcessingState :=
  ⟨p.gpuProcessingPointer, p.cache.cpuProcessingPointer, p.allocationTable,
    p.lockedAllocationTable, p.rmmStoredBuffers⟩

end Model

section Recovery

variable {Rows : Type} {a : Allocators} {p p' : Processing} {q : Query Rows}

def Construct.allocates : Construct → Bool
  | .tableScan columnIds => columnIds != 0
  | .expressionGet (row :: _) => row.length ≤ 1
  | _ => false

/-- The constructor is sure to throw before it allocates. -/
def Construct.throws : Construct → Bool
  | .unsupported _ => true
  | .tableScan columnIds => columnIds = 0
  | .expressionGet (row :: _) => 1 < row.length
  | _ => false

/-- Nothing has been allocated before the first constructor that is sure to throw. -/
def Unallocated : List Construct → Prop
  | [] => True
  | c :: rest => c.allocates = false ∧ (c.throws = true ∨ Unallocated rest)

/-- If the call fails at all, it fails in execution or before anything has been allocated. -/
structure Query.Recovers (a : Allocators) (p : Processing) (q : Query Rows) : Prop where
  planning : (∃ e p', Proc.each (construct a) q.constructs p = (.error e, p')) →
    Unallocated q.constructs
  pending : q.pendingError ≠ none → Unallocated q.constructs
  result : ∃ rows, q.result = .ok rows

/-- Each call of the run recovers, in the state it starts from. -/
def Recovering (a : Allocators) : List (Query Rows) → Processing → Prop
  | [], _ => True
  | q :: rest, p => q.Recovers a p ∧ Recovering a rest (step a p q)

lemma construct_unallocated {c : Construct} (free : c.allocates = false) :
    (construct a c p).2 = p := by
  cases c with
  | operator => rfl
  | unsupported e => rfl
  | tableScan columnIds =>
    obtain rfl : columnIds = 0 := by simpa [Construct.allocates] using free
    rfl
  | expressionGet expressions =>
    cases expressions with
    | nil => rfl
    | cons row rest =>
      have long : 1 < row.length := by simpa [Construct.allocates] using free
      have thrown : createExpressionRow a row p =
          (.error (.notImplemented "Expression get not supported"), p) := by
        rw [createExpressionRow, if_pos long]
        rfl
      rw [construct, Proc.each_cons, Proc.bind_error thrown]

lemma construct_throws (a : Allocators) (p : Processing) {c : Construct} (h : c.throws = true) :
    ∃ e, (construct a c p).1 = .error e := by
  cases c with
  | operator => cases h
  | unsupported e => exact ⟨e, rfl⟩
  | tableScan columnIds =>
    obtain rfl : columnIds = 0 := by simpa [Construct.throws] using h
    exact ⟨_, rfl⟩
  | expressionGet expressions =>
    cases expressions with
    | nil => cases h
    | cons row rest =>
      have long : 1 < row.length := by simpa [Construct.throws] using h
      have thrown : createExpressionRow a row p =
          (.error (.notImplemented "Expression get not supported"), p) := by
        rw [createExpressionRow, if_pos long]
        rfl
      exact ⟨_, by rw [construct, Proc.each_cons, Proc.bind_error thrown]⟩

/-- A plan that allocates nothing leaves the buffers, whether it is generated or not. -/
theorem planning_unallocated (a : Allocators) (p : Processing) (constructs : List Construct)
    (free : Unallocated constructs) : (Proc.each (construct a) constructs p).2 = p := by
  induction constructs with
  | nil => rfl
  | cons c rest ih =>
    obtain ⟨none, later⟩ := free
    have same : (construct a c p).2 = p := construct_unallocated none
    rw [Proc.each_cons]
    rcases built : construct a c p with ⟨result, p'⟩
    rw [built] at same
    change p' = p at same
    subst same
    cases result with
    | error e => rw [Proc.bind_error built]
    | ok _ =>
      rw [Proc.bind_ok built]
      apply ih
      refine later.resolve_left fun throws => ?_
      obtain ⟨e, thrown⟩ := construct_throws a p' throws
      rw [built] at thrown
      cases thrown

lemma pendingStatement_eq (a : Allocators) (q : Query Rows) (p : Processing) :
    (q.call a).gpuPendingStatementInternal () p =
      match q.pendingError with
      | none => (.ok (.ok ()), p)
      | some e => (.error e, p) := by
  cases pending : q.pendingError with
  | none =>
    unfold Call.gpuPendingStatementInternal Query.call
    rw [pending]
    rfl
  | some e =>
    unfold Call.gpuPendingStatementInternal Query.call
    rw [pending]
    rfl

/-- After a call that recovers nothing is left in the processing regions. -/
theorem step_isReset (recovers : q.Recovers a p) (reset : p.IsReset) :
    (step a p q).IsReset := by
  unfold step
  rcases planned : Proc.each (construct a) q.constructs p with ⟨result, p'⟩
  cases result with
  | error e =>
    have same := planning_unallocated a p q.constructs
      (recovers.planning ⟨e, p', planned⟩)
    rw [planned] at same
    have generated : (q.call a).gpuGeneratePhysicalPlan p = (.error e, p') := planned
    rw [gpuProcessing_generatePlan rfl generated]
    change p' = p at same
    rw [same]
    exact reset
  | ok _ =>
    have generated : (q.call a).gpuGeneratePhysicalPlan p = (.ok (), p') := planned
    rw [gpuProcessing_generated rfl generated]
    have prepared := pendingStatement_eq a q p'
    cases pending : q.pendingError with
    | some e =>
      rw [pending] at prepared
      have same := planning_unallocated a p q.constructs
        (recovers.pending (by rw [pending]; exact Option.some_ne_none e))
      rw [planned] at same
      change p' = p at same
      rw [gpuExecuteQuery_pendingStatement prepared, same]
      exact reset
    | none =>
      rw [pending] at prepared
      rw [gpuExecuteQuery_prepared prepared]
      rcases executed : q.execute p' with ⟨result, p''⟩
      cases result with
      | error e =>
        have thrown : (q.call a).executorExecute () p' = (.error e, p'') := executed
        rw [gpuExecutePendingQueryResult_execute thrown]
        exact resetBuffer_isReset p''
      | ok _ =>
        have returned : (q.call a).executorExecute () p' = (.ok (), p'') := executed
        obtain ⟨rows, handed⟩ := recovers.result
        have fetched : (q.call a).executorGetResult () p'' = (.ok rows, p'') := by
          unfold Query.call
          rw [handed]
          rfl
        have fetch : (q.call a).fetchResultInternal () p'' = (.ok (.ok rows), p''.resetBuffer) :=
          Proc.bind_ok fetched
        rw [gpuExecutePendingQueryResult_executed returned, fetch]
        exact resetBuffer_isReset p''

theorem run_isReset (queries : List (Query Rows)) (recovering : Recovering a queries p)
    (reset : p.IsReset) {earlier : List (Query Rows)} (reached : earlier <+: queries) :
    (run a earlier p).IsReset := by
  induction queries generalizing p earlier with
  | nil =>
    obtain rfl := List.prefix_nil.mp reached
    exact reset
  | cons q rest ih =>
    cases earlier with
    | nil => exact reset
    | cons q' earlier =>
      obtain ⟨rfl, more⟩ := List.cons_prefix_cons.mp reached
      exact ih recovering.2 (step_isReset recovering.1 reset) more

/-- All reset states agree on what is in the processing regions. -/
lemma processingState_reset (reset : p.IsReset) : processingState p = ⟨0, 0, [], [], []⟩ := by
  rw [← reset]
  rfl

lemma idle_isReset : idle.IsReset := by
  simp [Processing.IsReset, Processing.resetBuffer, idle, BufferManager.resetBuffer, initial]

/-- Two reset states differ in the cache alone. -/
lemma eq_of_reset (reset : p.IsReset) (reset' : p'.IsReset) (same : p.cache = p'.cache) :
    p = p' := by
  rw [← reset, ← reset', Processing.resetBuffer, Processing.resetBuffer, same]

end Recovery

section Witness

theorem roomy_available : 1000 ≤ 1000 := by decide

/-- Room for every query; each block of the GPU gets an address of its own. -/
def roomy : Allocators := ⟨⟨1000, 1000, 10000, roomy_available⟩,
  fun p _ => some (256 * (p.allocationTable.length + 1))⟩

/-- A scan of one column, with what happens after it has been constructed. -/
def oneScan (more : List Construct) (execute : Proc Processing Exception Unit) : Query (List Nat) :=
  ⟨.tableScan 1 :: more, none, execute, .ok [1], [1]⟩

/-- A list of values whose second is no BIGINT leaves two blocks on either side. -/
example : processingState (run roomy [(⟨[.expressionGet [[.bigintConstant], [.otherConstant]]],
      none, pure (), .ok [1], [1]⟩ : Query (List Nat))] idle) =
    ⟨0, 16, [(512, 256), (256, 256)], [], []⟩ := rfl

lemma oneScan_recovers {p : Processing} {execute : Proc Processing Exception Unit}
    (planned : (Proc.each (construct roomy) (oneScan [] execute).constructs p).1 = .ok ()) :
    (oneScan [] execute).Recovers roomy p := by
  refine ⟨?_, fun pending => absurd rfl pending, [1], rfl⟩
  rintro ⟨e, p', thrown⟩
  rw [thrown] at planned
  cases planned

/-- A call that fails in execution, after it has allocated; one that fails while it plans, at an
operator that is not supported; and one that does not fail. -/
def threeCalls : List (Query (List Nat)) :=
  [oneScan [] (Proc.update (fun p => { p with allocationTable := [(1, 256)] }) >>= fun _ =>
      Proc.raise .external),
    ⟨[.operator, .unsupported .external, .tableScan 1], none, pure (), .ok [1], [1]⟩,
    oneScan [] (pure ())]

end Witness

end FailedCalls
