import SiriusGpu.ThrowingState
import SiriusGpu.BufferArena
import Mathlib.Logic.Function.Basic

/-!
# Two calls that share the buffer manager

A call plans, which takes arrays for each of its scans from the processing region
of the CPU and a block for each of its values from that of the GPU; it executes,
which reads and updates these arrays, reads and fills the cache, takes buffers for
the result and at its end resets the processing regions; and then its result is
fetched chunk by chunk from buffers that stay where they are.
-/

namespace CallIsolation

open ThrowingState Proc BufferArena

section Buffers

abbrev Buffer := Range Unit

abbrev Bytes := List UInt8

/-- The buffer manager: the pointer and the memory of the CPU processing region, the blocks
allocated in the processing region of the GPU with its memory, and the table map with the caching
region. -/
structure Buffers (Cache : Type) where
  cpuProcessingPointer : Nat
  memory : Memory Unit Bytes
  allocationTable : List Buffer
  gpuMemory : Memory Unit Bytes
  cache : Cache

/-- The size of the CPU processing region, and where the memory resource of the GPU puts a block:
apart from those that are allocated, unless it throws. -/
structure Allocators (Cache : Type) where
  processingSizePerCpu : Nat
  allocate : Buffers Cache → Nat → Option Nat
  apart : ∀ s bytes start, allocate s bytes = some start →
    ∀ block ∈ s.allocationTable, ¬ Range.Overlaps ⟨(), start, bytes⟩ block

variable {Cache : Type}

/-- The pointer moves before the bound is checked. -/
def customCudaHostAlloc (a : Allocators Cache) (bytes : Nat) : Proc (Buffers Cache) Unit Buffer :=
  fun s =>
    let moved := { s with cpuProcessingPointer := s.cpuProcessingPointer + bytes }
    if a.processingSizePerCpu ≤ s.cpuProcessingPointer + bytes then (.error (), moved)
    else (.ok ⟨(), s.cpuProcessingPointer, bytes⟩, moved)

def store (buffer : Buffer) (content : Bytes) : Proc (Buffers Cache) Unit Unit :=
  Proc.update fun s => { s with memory := write s.memory buffer content }

def allocAndStore (a : Allocators Cache) (bytes : Nat) (content : Bytes) :
    Proc (Buffers Cache) Unit Buffer := do
  let buffer ← customCudaHostAlloc a bytes
  store buffer content
  pure buffer

def padded (bytes : Nat) : Nat := bytes + (256 - bytes % 256)

def customCudaMalloc (a : Allocators Cache) (bytes : Nat) : Proc (Buffers Cache) Unit Buffer :=
  fun s =>
    match a.allocate s (padded bytes) with
    | none => (.error (), s)
    | some start => (.ok ⟨(), start, padded bytes⟩,
        { s with allocationTable := ⟨(), start, padded bytes⟩ :: s.allocationTable })

def mallocAndStore (a : Allocators Cache) (content : Bytes) :
    Proc (Buffers Cache) Unit Buffer := do
  let block ← customCudaMalloc a content.length
  Proc.update fun s => { s with gpuMemory := write s.gpuMemory block content }
  pure block

/-- `ResetBuffer` -/
def Buffers.reset (s : Buffers Cache) : Buffers Cache :=
  { s with cpuProcessingPointer := 0, allocationTable := [] }

end Buffers

section Calls

/-- What a scan reads; a generated row-id column has entries that are never set. -/
structure ScanShape where
  dataColumns : Nat
  genRowIdColumn : Bool
  nonempty : 0 < dataColumns + genRowIdColumn.toNat

def ScanShape.columnIds (shape : ScanShape) : Nat :=
  shape.dataColumns + shape.genRowIdColumn.toNat

/-- The entries of the data columns start at zero. -/
def ScanShape.zeros (shape : ScanShape) : Bytes := List.replicate (8 * shape.dataColumns) 0

structure ScanMetadata where
  shape : ScanShape
  columnSize : Buffer
  maskSize : Buffer
  alreadyCached : Buffer

/-- What planning constructs in the processing regions: a scan, or a row of a list of values. -/
inductive Construct
  | tableScan (shape : ScanShape)
  | expressionRow (value : Bytes)

inductive Constructed
  | tableScan (metadata : ScanMetadata)
  | expressionRow (value : Bytes) (data : Buffer)

variable {Cache : Type}

def constructTableScan (a : Allocators Cache) (shape : ScanShape) :
    Proc (Buffers Cache) Unit Constructed := do
  let columnSize ← allocAndStore a (8 * shape.columnIds) shape.zeros
  let maskSize ← allocAndStore a (8 * shape.columnIds) shape.zeros
  let alreadyCached ← customCudaHostAlloc a shape.columnIds
  pure (.tableScan ⟨shape, columnSize, maskSize, alreadyCached⟩)

/-- `h_data` is only needed to copy the value to `d_data`. -/
def constructExpressionRow (a : Allocators Cache) (value : Bytes) :
    Proc (Buffers Cache) Unit Constructed := do
  let _ ← allocAndStore a 8 value
  let data ← mallocAndStore a value
  pure (.expressionRow value data)

def construct (a : Allocators Cache) : Construct → Proc (Buffers Cache) Unit Constructed
  | .tableScan shape => constructTableScan a shape
  | .expressionRow value => constructExpressionRow a value

def Constructed.source : Constructed → Construct
  | .tableScan metadata => .tableScan metadata.shape
  | .expressionRow value _ => .expressionRow value

def ScanMetadata.buffers (m : ScanMetadata) : List Buffer :=
  [m.alreadyCached, m.maskSize, m.columnSize]

def Constructed.buffers : Constructed → List Buffer
  | .tableScan metadata => metadata.buffers
  | .expressionRow _ _ => []

/-- What a call reads of what it has constructed. -/
def Constructed.seen (s : Buffers Cache) : Constructed → List (Option Bytes)
  | .tableScan metadata => [read s.memory metadata.columnSize, read s.memory metadata.maskSize]
  | .expressionRow _ data => [read s.gpuMemory data]

/-- What it reads if no one else has touched that. -/
def Construct.untouched : Construct → List (Option Bytes)
  | .tableScan shape => [some shape.zeros, some shape.zeros]
  | .expressionRow value => [some value]

/-- What execution makes of what it has read: what it leaves in the arrays and in the cache, the
buffers it uses on its way on either side, and unless it throws the buffers of its result and the
number of its chunks. -/
structure Execution (Cache : Type) where
  counted : List Bytes
  cache : Cache
  scratch : List Bytes
  blocks : List Bytes
  result : Option (List Bytes)
  chunks : Nat

/-- A call by what it computes, of the cache and of what it has constructed. Where the cache tells
the truth about its tables and no one else has touched the rest, the GPU and DuckDB agree. -/
structure CallSpec (Cache Chunk : Type) where
  constructs : List Construct
  truthful : Cache → Prop
  execution : Cache → List (Option Bytes) → Execution Cache
  chunk : List (Option Bytes) → Nat → Chunk
  duckdb : List Chunk
  nonempty : ∀ cache seen, ∀ result ∈ (execution cache seen).result, ∀ content ∈ result,
    content ≠ []
  agrees : ∀ cache, truthful cache →
    ∀ result ∈ (execution cache (constructs.flatMap Construct.untouched)).result,
      (List.range (execution cache (constructs.flatMap Construct.untouched)).chunks).map
        (chunk (result.map some)) = duckdb

variable {Chunk : Type}

def seen (s : Buffers Cache) (plan : List Constructed) : List (Option Bytes) :=
  plan.flatMap (Constructed.seen s)

/-- `GPUExecutor::Execute`: the buffers of the result, with what has been written to them, and the
number of chunks. What it frees on its way it has allocated itself. -/
def CallSpec.execute (spec : CallSpec Cache Chunk) (a : Allocators Cache)
    (plan : List Constructed) : Proc (Buffers Cache) Unit (List (Buffer × Bytes) × Nat) := do
  let execution ← Proc.read fun s => spec.execution s.cache (seen s plan)
  Proc.update fun s => { s with cache := execution.cache }
  Proc.each (fun x => store x.1 x.2) ((plan.flatMap Constructed.buffers).zip execution.counted)
  let _ ← Proc.collect (fun content => allocAndStore a content.length content) execution.scratch
  let _ ← Proc.collect (mallocAndStore a) execution.blocks
  match execution.result with
  | none => Proc.raise ()
  | some result => do
    let buffers ← Proc.collect (fun content => allocAndStore a content.length content) result
    pure (buffers.zip result, execution.chunks)

/-- How far a call has come: `planned none` is one that failed to plan, and what fails is
answered by DuckDB. -/
inductive Session
  | fresh
  | planned (plan : Option (List Constructed))
  | delivering (buffers : List (Buffer × Bytes)) (chunks fetched : Nat)
  | answering (fetched : Nat)

inductive Caller
  | first | second
  deriving DecidableEq, Repr

inductive Kind
  | plan | execute | fetch
  deriving DecidableEq, Repr

abbrev Step := Caller × Kind

structure State (Cache Chunk : Type) where
  buffers : Buffers Cache
  session : Caller → Session
  output : Caller → List Chunk

def State.goOn (s : State Cache Chunk) (caller : Caller) (buffers : Buffers Cache)
    (session : Session) : State Cache Chunk :=
  { s with buffers, session := Function.update s.session caller session }

def State.emit (s : State Cache Chunk) (caller : Caller) (chunk : Chunk) (session : Session) :
    State Cache Chunk :=
  { s with
    session := Function.update s.session caller session
    output := Function.update s.output caller (s.output caller ++ [chunk]) }

/-- A step that is not up yet changes nothing. -/
def step (a : Allocators Cache) (specs : Caller → CallSpec Cache Chunk)
    (s : State Cache Chunk) : Step → State Cache Chunk
  | (caller, kind) =>
    match kind, s.session caller with
    | .plan, .fresh =>
      match Proc.collect (construct a) (specs caller).constructs s.buffers with
      | (.ok plan, buffers) => s.goOn caller buffers (.planned (some plan))
      | (.error _, buffers) => s.goOn caller buffers (.planned none)
    | .execute, .planned none => s.goOn caller s.buffers (.answering 0)
    | .execute, .planned (some plan) =>
      match (specs caller).execute a plan s.buffers with
      | (.ok (result, chunks), buffers) =>
        s.goOn caller buffers.reset (.delivering result chunks 0)
      | (.error _, buffers) => s.goOn caller buffers.reset (.answering 0)
    | .fetch, .delivering result chunks fetched =>
      if fetched < chunks then
        s.emit caller ((specs caller).chunk
            (result.map fun x => read s.buffers.memory x.1) fetched)
          (.delivering result chunks (fetched + 1))
      else s
    | .fetch, .answering fetched =>
      match (specs caller).duckdb[fetched]? with
      | some chunk => s.emit caller chunk (.answering (fetched + 1))
      | none => s
    | _, _ => s

/-- Nothing is allocated, and the cache is what earlier calls have left. -/
def initial (cache : Cache) : State Cache Chunk :=
  ⟨⟨0, [], [], [], cache⟩, fun _ => .fresh, fun _ => []⟩

def run (a : Allocators Cache) (specs : Caller → CallSpec Cache Chunk) (steps : List Step)
    (s : State Cache Chunk) : State Cache Chunk := steps.foldl (step a specs) s

/-- The buffers of the CPU a call still refers to. -/
def Session.live : Session → List Buffer
  | .planned (some plan) => plan.flatMap Constructed.buffers
  | .delivering buffers chunks fetched => if fetched < chunks then buffers.map Prod.fst else []
  | _ => []

def State.live (s : State Cache Chunk) : List Buffer :=
  (s.session .first).live ++ (s.session .second).live

def Constructed.blocks : Constructed → List (Buffer × Bytes)
  | .tableScan _ => []
  | .expressionRow value data => [(data, value)]

/-- The blocks of the GPU a call still refers to, with what it has written to them. -/
def Session.blocks : Session → List (Buffer × Bytes)
  | .planned (some plan) => plan.flatMap Constructed.blocks
  | _ => []

end Calls

section Holds

variable {entries entries' : List (Buffer × Option Bytes)} {limit limit' : Nat}
  {memory : Memory Unit Bytes} {buffer : Buffer} {content : Bytes}

/-- Buffers that lie apart below a limit, with what is known of their contents. -/
structure Holds (entries : List (Buffer × Option Bytes)) (limit : Nat)
    (memory : Memory Unit Bytes) : Prop where
  layout : Layout (fun _ => limit) (entries.map Prod.fst)
  content : ∀ e ∈ entries, ∀ content ∈ e.2, read memory e.1 = some content

lemma Holds.sublist (h : Holds entries limit memory) (sub : entries'.Sublist entries) :
    Holds entries' limit memory :=
  ⟨h.layout.sublist (sub.map _), fun e he => h.content e (sub.subset he)⟩

lemma Holds.perm (h : Holds entries limit memory) (same : entries.Perm entries') :
    Holds entries' limit memory :=
  ⟨h.layout.perm (same.map _), fun e he => h.content e (same.symm.subset he)⟩

lemma Holds.grow (h : Holds entries limit memory) (more : limit ≤ limit') :
    Holds entries limit' memory :=
  ⟨h.layout.grow fun _ => more, h.content⟩

lemma Holds.lower (h : Holds entries limit memory)
    (below : ∀ e ∈ entries, e.1.stop ≤ limit') : Holds entries limit' memory := by
  refine ⟨⟨h.layout.apart, ?_, h.layout.nonempty⟩, h.content⟩
  intro r hr
  obtain ⟨e, he, rfl⟩ := List.mem_map.mp hr
  exact below e he

lemma Holds.alloc (h : Holds entries limit memory) (start : limit ≤ buffer.start)
    (size : 0 < buffer.size) (room : buffer.stop ≤ limit') :
    Holds ((buffer, none) :: entries) limit' memory := by
  have more : limit ≤ limit' := by
    unfold Range.stop at room
    omega
  refine ⟨h.layout.alloc start size (fun _ => more) room, ?_⟩
  intro e he
  rcases List.mem_cons.mp he with rfl | he
  · intro content known
    cases known
  · exact h.content e he

/-- A write to a buffer apart from all that is known. -/
lemma Holds.write (h : Holds entries limit memory)
    (apart : ∀ e ∈ entries, ¬ buffer.Overlaps e.1) (content : Bytes) :
    Holds entries limit (write memory buffer content) := by
  refine ⟨h.layout, ?_⟩
  intro e he known hknown
  rw [read_write_apart (apart e he) (h.layout.nonempty e.1 (List.mem_map_of_mem he))]
  exact h.content e he known hknown

lemma Holds.apart_head {known : Option Bytes}
    (h : Holds ((buffer, known) :: entries) limit memory) :
    ∀ e ∈ entries, ¬ buffer.Overlaps e.1 := by
  intro e he
  exact (List.pairwise_cons.mp h.layout.apart).1 e.1 (List.mem_map_of_mem he)

lemma Holds.store {known : Option Bytes} (h : Holds ((buffer, known) :: entries) limit memory)
    (content : Bytes) :
    Holds ((buffer, some content) :: entries) limit (BufferArena.write memory buffer content) := by
  have rest := (h.sublist (List.sublist_cons_self _ _)).write h.apart_head content
  refine ⟨h.layout, ?_⟩
  intro e he
  rcases List.mem_cons.mp he with rfl | he
  · intro c hc
    cases hc
    exact read_write_self memory buffer content
  · exact rest.content e he

/-- Blocks of the GPU with their contents. -/
def Written (blocks : List (Buffer × Bytes)) (memory : Memory Unit Bytes) : Prop :=
  ∀ e ∈ blocks, 0 < e.1.size ∧ read memory e.1 = some e.2

variable {Cache : Type} {blocks blocks' : List (Buffer × Bytes)} {s s' : Buffers Cache}

/-- What is known of both sides: the buffers of the CPU lie below the pointer, the blocks of the
GPU are allocated. -/
structure Known (entries : List (Buffer × Option Bytes)) (blocks : List (Buffer × Bytes))
    (s : Buffers Cache) : Prop where
  holds : Holds entries s.cpuProcessingPointer s.memory
  written : Written blocks s.gpuMemory
  allocated : ∀ e ∈ blocks, e.1 ∈ s.allocationTable

lemma Known.fewer (h : Known entries blocks s) (sub : entries'.Sublist entries)
    (subset : blocks' ⊆ blocks) : Known entries' blocks' s :=
  ⟨h.holds.sublist sub, fun e he => h.written e (subset he), fun e he => h.allocated e (subset he)⟩

lemma Known.perm (h : Known entries blocks s) (same : entries.Perm entries')
    (same' : blocks.Perm blocks') : Known entries' blocks' s :=
  ⟨h.holds.perm same, fun e he => h.written e (same'.symm.subset he),
    fun e he => h.allocated e (same'.symm.subset he)⟩

/-- The GPU is not concerned. -/
lemma Known.host (h : Known entries blocks s)
    (holds : Holds entries' s'.cpuProcessingPointer s'.memory) (memory : s'.gpuMemory = s.gpuMemory)
    (table : s'.allocationTable = s.allocationTable) : Known entries' blocks s' :=
  ⟨holds, by rw [memory]; exact h.written, by rw [table]; exact h.allocated⟩

variable (a : Allocators Cache)

theorem customCudaHostAlloc_known (bytes : Nat) (positive : 0 < bytes) :
    Triple (Known entries blocks) (customCudaHostAlloc a bytes)
      (fun buffer => Known ((buffer, none) :: entries) blocks) (Known entries blocks) := by
  intro s h
  by_cases full : a.processingSizePerCpu ≤ s.cpuProcessingPointer + bytes
  · have run : customCudaHostAlloc a bytes s = (.error (), _) := if_pos full
    rw [run]
    exact h.host (h.holds.grow (Nat.le_add_right _ _)) rfl rfl
  · have run : customCudaHostAlloc a bytes s = (.ok _, _) := if_neg full
    rw [run]
    exact h.host (h.holds.alloc (Nat.le_refl _) positive (Nat.le_refl _)) rfl rfl

theorem allocAndStore_known (bytes : Nat) (positive : 0 < bytes) (content : Bytes) :
    Triple (Known entries blocks) (allocAndStore a bytes content)
      (fun buffer => Known ((buffer, some content) :: entries) blocks) (Known entries blocks) := by
  apply Triple.bind (customCudaHostAlloc_known a bytes positive)
  intro buffer
  have stored : Triple (Known ((buffer, none) :: entries) blocks)
      (CallIsolation.store buffer content : Proc (Buffers Cache) Unit Unit)
      (fun _ => Known ((buffer, some content) :: entries) blocks) (Known entries blocks) :=
    Triple.update fun s h => h.host (Holds.store h.holds content) rfl rfl
  apply Triple.bind stored
  intro _
  exact Triple.ret fun s h => h

/-- A buffer of any size that is forgotten at once. -/
theorem allocAndStore_forgets (bytes : Nat) (content : Bytes) :
    Triple (Known entries blocks) (allocAndStore a bytes content) (fun _ => Known entries blocks)
      (Known entries blocks) := by
  intro s h
  have moved : Known entries blocks
      { s with cpuProcessingPointer := s.cpuProcessingPointer + bytes } :=
    h.host (h.holds.grow (Nat.le_add_right _ _)) rfl rfl
  by_cases full : a.processingSizePerCpu ≤ s.cpuProcessingPointer + bytes
  · have run : customCudaHostAlloc a bytes s = (.error (), _) := if_pos full
    rw [allocAndStore, bind_error run]
    exact moved
  · have run : customCudaHostAlloc a bytes s =
        (.ok ⟨(), s.cpuProcessingPointer, bytes⟩, _) := if_neg full
    rw [allocAndStore, bind_ok run]
    refine moved.host (moved.holds.write ?_ content) rfl rfl
    intro e he
    exact h.holds.layout.fresh (Nat.le_refl _) (List.mem_map_of_mem he)

/-- A new block lies apart from all that are allocated. -/
theorem mallocAndStore_known (content : Bytes) :
    Triple (Known entries blocks) (mallocAndStore a content)
      (fun block => Known entries ((block, content) :: blocks)) (Known entries blocks) := by
  intro s h
  cases place : a.allocate s (padded content.length) with
  | none =>
    have run : customCudaMalloc a content.length s = (.error (), s) := by
      simp only [customCudaMalloc, place]
    rw [mallocAndStore, bind_error run]
    exact h
  | some start =>
    have run : customCudaMalloc a content.length s = (.ok ⟨(), start, padded content.length⟩,
        { s with allocationTable :=
            ⟨(), start, padded content.length⟩ :: s.allocationTable }) := by
      simp only [customCudaMalloc, place]
    rw [mallocAndStore, bind_ok run]
    refine ⟨h.holds, ?_, ?_⟩
    · intro e he
      rcases List.mem_cons.mp he with rfl | he
      · have size : 0 < padded content.length := by
          unfold padded
          omega
        exact ⟨size, read_write_self _ _ _⟩
      · obtain ⟨size, content⟩ := h.written e he
        refine ⟨size, ?_⟩
        rw [← content]
        exact read_write_apart (a.apart s _ start place e.1 (h.allocated e he)) size
    · intro e he
      rcases List.mem_cons.mp he with rfl | he
      · exact List.mem_cons_self
      · exact List.mem_cons_of_mem _ (h.allocated e he)

end Holds

section Sessions

variable {Cache Chunk : Type} {base others : List (Buffer × Option Bytes)}
  {blocks : List (Buffer × Bytes)} (a : Allocators Cache) {spec : CallSpec Cache Chunk}
  {plan : List Constructed}

/-- What is known of the arrays of a scan no one else has touched. -/
def Constructed.entries : Constructed → List (Buffer × Option Bytes)
  | .tableScan m => [(m.alreadyCached, none), (m.maskSize, some m.shape.zeros),
      (m.columnSize, some m.shape.zeros)]
  | .expressionRow _ _ => []

/-- What execution makes of a cache and of what no one else has touched. -/
def CallSpec.intact (spec : CallSpec Cache Chunk) (cache : Cache) : Execution Cache :=
  spec.execution cache (spec.constructs.flatMap Construct.untouched)

lemma entries_buffers (plan : List Constructed) :
    (plan.flatMap Constructed.entries).map Prod.fst = plan.flatMap Constructed.buffers := by
  rw [List.map_flatMap]
  apply List.flatMap_congr
  rintro (m | ⟨value, data⟩) _
  · rfl
  · rfl

lemma columnIds_pos (shape : ScanShape) : 0 < shape.columnIds := shape.nonempty

theorem constructTableScan_known (shape : ScanShape) :
    Triple (Known base blocks) (constructTableScan a shape)
      (fun c s => c.source = .tableScan shape ∧ Known (c.entries ++ base) (c.blocks ++ blocks) s)
      (Known base blocks) := by
  have positive := columnIds_pos shape
  apply Triple.bind (allocAndStore_known a _ (by omega) _)
  intro columnSize
  apply Triple.bind ((allocAndStore_known a _ (by omega) _).weaken (fun _ h => h)
    (fun _ _ h => h) fun _ h => h.fewer (List.sublist_cons_self _ _) (List.Subset.refl _))
  intro maskSize
  apply Triple.bind ((customCudaHostAlloc_known a _ positive).weaken (fun _ h => h)
    (fun _ _ h => h)
    fun _ h => h.fewer ((List.sublist_cons_self _ _).trans (List.sublist_cons_self _ _))
      (List.Subset.refl _))
  intro alreadyCached
  exact Triple.ret fun s h => ⟨rfl, h⟩

theorem constructExpressionRow_known (value : Bytes) :
    Triple (Known base blocks) (constructExpressionRow a value)
      (fun c s => c.source = .expressionRow value ∧
        Known (c.entries ++ base) (c.blocks ++ blocks) s) (Known base blocks) := by
  apply Triple.bind (allocAndStore_forgets a 8 value)
  intro _
  apply Triple.bind (mallocAndStore_known a value)
  intro data
  exact Triple.ret fun s h => ⟨rfl, h⟩

theorem construct_known (c : Construct) :
    Triple (Known base blocks) (construct a c)
      (fun k s => k.source = c ∧ Known (k.entries ++ base) (k.blocks ++ blocks) s)
      (Known base blocks) := by
  cases c with
  | tableScan shape => exact constructTableScan_known a shape
  | expressionRow value => exact constructExpressionRow_known a value

theorem plan_known (constructs : List Construct) :
    Triple (Known base blocks) (Proc.collect (construct a) constructs)
      (fun plan s => plan.map Constructed.source = constructs ∧
        Known (plan.flatMap Constructed.entries ++ base)
          (plan.flatMap Constructed.blocks ++ blocks) s) (Known base blocks) := by
  refine (Triple.collect (I := fun done plan s => plan.map Constructed.source = done ∧
    Known (plan.flatMap Constructed.entries ++ base)
      (plan.flatMap Constructed.blocks ++ blocks) s) ?_).pre fun s h => ⟨rfl, h⟩
  · intro done c _ plan _
    apply Triple.given
    intro built
    apply (construct_known a c).weaken (fun _ h => h)
    · rintro k s ⟨same, h⟩
      refine ⟨by rw [List.map_append, built, List.map_singleton, same], ?_⟩
      rw [List.flatMap_append, List.flatMap_singleton, List.append_assoc, List.flatMap_append,
        List.flatMap_singleton, List.append_assoc]
      exact h.perm (List.perm_append_comm_assoc _ _ _) (List.perm_append_comm_assoc _ _ _)
    · intro s h
      exact h.fewer (List.sublist_append_right _ _) (List.subset_append_right _ _)

/-- Buffers of a result, with their contents. -/
theorem results_known (result : List Bytes) (nonempty : ∀ content ∈ result, content ≠ []) :
    Triple (Known others blocks)
      (Proc.collect (fun content => allocAndStore a content.length content) result)
      (fun buffers s => buffers.length = result.length ∧
        Known (buffers.zip (result.map some) ++ others) blocks s) (Known others blocks) := by
  refine (Triple.collect (I := fun done buffers s => buffers.length = done.length ∧
    Known (buffers.zip (done.map some) ++ others) blocks s) ?_).pre fun s h => ⟨rfl, h⟩
  · intro done content rest buffers whole
    apply Triple.given
    intro same
    have positive : 0 < content.length := by
      apply List.length_pos_of_ne_nil
      exact nonempty content (by rw [whole]; simp)
    apply (allocAndStore_known a _ positive content).weaken (fun _ h => h)
    · intro buffer s h
      refine ⟨by simp [same], ?_⟩
      refine h.perm ?_ (List.Perm.refl _)
      rw [List.map_append, List.zip_append (by simpa using same), List.append_assoc]
      exact List.perm_middle.symm
    · intro s h
      exact h.fewer (List.sublist_append_right _ _) (List.Subset.refl _)

lemma seen_intact {s : Buffers Cache} (made : plan.map Constructed.source = spec.constructs)
    (h : Known (plan.flatMap Constructed.entries ++ others)
      (plan.flatMap Constructed.blocks ++ blocks) s) (cache : Cache) :
    spec.execution cache (seen s plan) = spec.intact cache := by
  have reads : ∀ c ∈ plan, c.seen s = c.source.untouched := by
    rintro (m | ⟨value, data⟩) inside
    · have known : ∀ e ∈ (Constructed.tableScan m).entries,
          e ∈ plan.flatMap Constructed.entries ++ others := fun e he =>
        List.mem_append_left _ (List.mem_flatMap.mpr ⟨_, inside, he⟩)
      have columnSize := h.holds.content _ (known (m.columnSize, some m.shape.zeros)
        (by simp [Constructed.entries])) m.shape.zeros rfl
      have maskSize := h.holds.content _ (known (m.maskSize, some m.shape.zeros)
        (by simp [Constructed.entries])) m.shape.zeros rfl
      simp only [Constructed.seen, Constructed.source, Construct.untouched, columnSize, maskSize]
    · have known : (data, value) ∈ plan.flatMap Constructed.blocks ++ blocks :=
        List.mem_append_left _ (List.mem_flatMap.mpr ⟨_, inside, List.mem_cons_self⟩)
      have content := (h.written _ known).2
      simp only [Constructed.seen, Constructed.source, Construct.untouched, content]
  unfold CallSpec.intact seen
  rw [← made, List.flatMap_map, List.flatMap_congr reads]

lemma zip_some {buffers : List Buffer} {result : List Bytes} :
    (buffers.zip result).map (fun x => (x.1, some x.2)) = buffers.zip (result.map some) := by
  rw [List.zip_map_right]
  rfl

/-- Execution on what no one else has touched keeps what the other call refers to. -/
theorem execute_known (cache : Cache) (made : plan.map Constructed.source = spec.constructs) :
    Triple (fun s => s.cache = cache ∧ Known (plan.flatMap Constructed.entries ++ others)
        (plan.flatMap Constructed.blocks ++ blocks) s) (spec.execute a plan)
      (fun out s => ∃ result, (spec.intact cache).result = some result ∧
        out.1.map Prod.snd = result ∧ out.2 = (spec.intact cache).chunks ∧
        Known (out.1.map (fun x => (x.1, some x.2)) ++ others) blocks s)
      (Known others blocks) := by
  rintro s ⟨same, h⟩
  have start : (∀ buffer ∈ plan.flatMap Constructed.buffers, ∀ e ∈ others,
      ¬ buffer.Overlaps e.1) ∧ Known others blocks s := by
    refine ⟨?_, h.fewer (List.sublist_append_right _ _) (List.subset_append_right _ _)⟩
    have apart := h.holds.layout.apart
    rw [List.map_append, entries_buffers, List.pairwise_append] at apart
    intro buffer hbuffer e he
    exact apart.2.2 buffer hbuffer e.1 (List.mem_map_of_mem he)
  unfold CallSpec.execute
  rw [bind_read, seen_intact made h, same]
  refine Triple.given (P := Known others blocks) (E := Known others blocks) ?_ s start
  intro apart
  have left : Triple (Known others blocks)
      (Proc.update fun s => { s with cache := (spec.intact cache).cache } :
        Proc (Buffers Cache) Unit Unit)
      (fun _ => Known others blocks) (Known others blocks) :=
    Triple.update fun s h => h.host h.holds rfl rfl
  apply Triple.bind left
  intro _
  apply Triple.bind (Triple.each (I := fun _ => Known others blocks) ?_)
  · intro _
    apply Triple.bind (Triple.collect (I := fun _ _ => Known others blocks) ?_)
    · intro _
      apply Triple.bind (Triple.collect (I := fun _ _ => Known others blocks) ?_)
      · intro _
        cases result : (spec.intact cache).result with
        | none => exact Triple.raise fun _ h => h
        | some contents =>
          have nonempty := spec.nonempty _ _ contents result
          apply Triple.bind (results_known a contents nonempty)
          intro buffers
          refine Triple.ret fun s h => ⟨contents, rfl, ?_, rfl, ?_⟩
          · exact List.map_snd_zip (Nat.le_of_eq h.1.symm)
          · rw [zip_some]
            exact h.2
      · intro _ content _ _ _
        exact (mallocAndStore_known a content).post fun _ _ h =>
          h.fewer (List.Sublist.refl _) (List.subset_cons_self _ _)
    · intro _ content _ _ _
      exact allocAndStore_forgets a content.length content
  · intro _ x _ whole
    apply Triple.update
    intro s h
    refine h.host (h.holds.write ?_ x.2) rfl rfl
    apply apart
    have inside : x ∈ (plan.flatMap Constructed.buffers).zip (spec.intact cache).counted := by
      rw [whole]
      simp
    exact (List.of_mem_zip inside).1

/-- Planning leaves the cache. -/
theorem plan_cache (cache : Cache) (constructs : List Construct) :
    Triple (fun s => s.cache = cache) (Proc.collect (construct a) constructs)
      (fun _ s => s.cache = cache) fun s => s.cache = cache := by
  have host (bytes : Nat) : Triple (fun s => s.cache = cache) (customCudaHostAlloc a bytes)
      (fun _ s => s.cache = cache) fun s => s.cache = cache := by
    intro s same
    by_cases full : a.processingSizePerCpu ≤ s.cpuProcessingPointer + bytes
    · have run : customCudaHostAlloc a bytes s = (.error (), _) := if_pos full
      rw [run]
      exact same
    · have run : customCudaHostAlloc a bytes s = (.ok _, _) := if_neg full
      rw [run]
      exact same
  have stored (bytes : Nat) (content : Bytes) : Triple (fun s => s.cache = cache)
      (allocAndStore a bytes content) (fun _ s => s.cache = cache) fun s => s.cache = cache :=
    Triple.bind (host bytes) fun _ => Triple.bind (Q := fun _ s => s.cache = cache)
      (Triple.update fun _ same => same) fun _ => Triple.ret fun _ same => same
  have malloc (content : Bytes) : Triple (fun s => s.cache = cache)
      (mallocAndStore a content) (fun _ s => s.cache = cache) fun s => s.cache = cache := by
    refine Triple.bind (Q := fun _ s => s.cache = cache) ?_ fun _ =>
      Triple.bind (Q := fun _ s => s.cache = cache)
        (Triple.update fun _ same => same) fun _ => Triple.ret fun _ same => same
    intro s same
    unfold customCudaMalloc
    cases a.allocate s (padded content.length) with
    | none => exact same
    | some start => exact same
  refine Triple.collect (I := fun _ _ (s : Buffers Cache) => s.cache = cache) ?_
  intro _ c _ _ _
  cases c with
  | tableScan shape =>
    exact Triple.bind (stored _ _) fun _ => Triple.bind (stored _ _) fun _ =>
      Triple.bind (host _) fun _ => Triple.ret fun _ same => same
  | expressionRow value =>
    exact Triple.bind (stored _ _) fun _ => Triple.bind (malloc _) fun _ =>
      Triple.ret fun _ same => same

end Sessions

section Runs

variable {Cache Chunk : Type} {a : Allocators Cache} {specs : Caller → CallSpec Cache Chunk}
  {s : State Cache Chunk} {spec : CallSpec Cache Chunk} {session : Session} {output : List Chunk}
  {caller : Caller}

def Caller.other : Caller → Caller
  | .first => .second
  | .second => .first

/-- What is known of the buffers a call refers to. -/
def Session.entries : Session → List (Buffer × Option Bytes)
  | .planned (some plan) => plan.flatMap Constructed.entries
  | .delivering buffers chunks fetched =>
    if fetched < chunks then buffers.map fun x => (x.1, some x.2) else []
  | _ => []

/-- What a call has delivered are the first chunks of its answer. -/
def Good (spec : CallSpec Cache Chunk) : Session → List Chunk → Prop
  | .fresh, output => output = []
  | .planned none, output => output = []
  | .planned (some plan), output =>
    output = [] ∧ plan.map Constructed.source = spec.constructs
  | .delivering buffers chunks fetched, output =>
    output = spec.duckdb.take fetched ∧ fetched ≤ chunks ∧
      (List.range chunks).map (spec.chunk (buffers.map fun x => some x.2)) = spec.duckdb
  | .answering fetched, output => output = spec.duckdb.take fetched ∧ fetched ≤ spec.duckdb.length

structure Sound (specs : Caller → CallSpec Cache Chunk) (s : State Cache Chunk) : Prop where
  good : ∀ caller, Good (specs caller) (s.session caller) (s.output caller)
  holds : ∃ top, Holds ((s.session .first).entries ++ (s.session .second).entries) top
    s.buffers.memory
  written : ∀ caller, Written (s.session caller).blocks s.buffers.gpuMemory

/-- The step takes buffers from the regions. -/
def Allocates (s : State Cache Chunk) : Step → Prop
  | (caller, .plan) => s.session caller = .fresh
  | (caller, .execute) => ∃ plan, s.session caller = .planned (some plan)
  | (_, .fetch) => False

/-- Nothing that is still referred to lies above the pointer or has been deallocated. -/
structure Clear (s : State Cache Chunk) : Prop where
  below : ∀ buffer ∈ s.live, buffer.stop ≤ s.buffers.cpuProcessingPointer
  allocated : ∀ caller, ∀ block ∈ (s.session caller).blocks, block.1 ∈ s.buffers.allocationTable

instance (s : State Cache Chunk) : Decidable (Clear s) :=
  decidable_of_iff ((∀ buffer ∈ s.live, buffer.stop ≤ s.buffers.cpuProcessingPointer) ∧
    (∀ block ∈ (s.session .first).blocks, block.1 ∈ s.buffers.allocationTable) ∧
    ∀ block ∈ (s.session .second).blocks, block.1 ∈ s.buffers.allocationTable)
    ⟨fun h => ⟨h.1, by rintro (_ | _); exacts [h.2.1, h.2.2]⟩,
      fun h => ⟨h.below, h.allocated .first, h.allocated .second⟩⟩

/-- The cache tells the truth about the tables of a call that executes. -/
def Truthful (specs : Caller → CallSpec Cache Chunk) (s : State Cache Chunk) : Step → Prop
  | (caller, .execute) => (∃ plan, s.session caller = .planned (some plan)) →
      (specs caller).truthful s.buffers.cache
  | _ => True

/-- Whenever a step of the run takes buffers, the regions are clear, and where it executes, the
cache is truthful. -/
def Guarded (a : Allocators Cache) (specs : Caller → CallSpec Cache Chunk) :
    List Step → State Cache Chunk → Prop
  | [], _ => True
  | first :: rest, s =>
    (Allocates s first → Clear s) ∧ Truthful specs s first ∧
      Guarded a specs rest (step a specs s first)

theorem guarded_cons {first : Step} {rest : List Step} (clear : Allocates s first → Clear s)
    (truthful : Truthful specs s first) (later : Guarded a specs rest (step a specs s first)) :
    Guarded a specs (first :: rest) s := ⟨clear, truthful, later⟩

lemma entries_live (session : Session) : session.entries.map Prod.fst = session.live := by
  match session with
  | .fresh => rfl
  | .planned none => rfl
  | .planned (some plan) => exact entries_buffers plan
  | .answering _ => rfl
  | .delivering buffers chunks fetched =>
    simp only [Session.entries, Session.live]
    by_cases more : fetched < chunks
    · rw [if_pos more, if_pos more, List.map_map]
      rfl
    · rw [if_neg more, if_neg more]
      rfl

lemma Sound.front (h : Sound specs s) (caller : Caller) :
    ∃ top, Holds ((s.session caller).entries ++ (s.session caller.other).entries) top
      s.buffers.memory := by
  obtain ⟨top, holds⟩ := h.holds
  cases caller with
  | first => exact ⟨top, holds⟩
  | second => exact ⟨top, holds.perm List.perm_append_comm⟩

lemma Sound.known (h : Sound specs s) (clear : Clear s) (caller : Caller) :
    Known ((s.session caller).entries ++ (s.session caller.other).entries)
      ((s.session caller).blocks ++ (s.session caller.other).blocks) s.buffers := by
  obtain ⟨top, holds⟩ := h.front caller
  refine ⟨holds.lower ?_, ?_, ?_⟩
  · intro e he
    apply clear.below
    rw [State.live, ← entries_live, ← entries_live]
    rcases List.mem_append.mp he with own | other
    · cases caller with
      | first => exact List.mem_append_left _ (List.mem_map_of_mem own)
      | second => exact List.mem_append_right _ (List.mem_map_of_mem own)
    · cases caller with
      | first => exact List.mem_append_right _ (List.mem_map_of_mem other)
      | second => exact List.mem_append_left _ (List.mem_map_of_mem other)
  · intro e he
    rcases List.mem_append.mp he with own | other
    · exact h.written caller e own
    · exact h.written caller.other e other
  · intro e he
    rcases List.mem_append.mp he with own | other
    · exact clear.allocated caller e own
    · exact clear.allocated caller.other e other

lemma other_ne (caller : Caller) : caller.other ≠ caller := by
  cases caller <;> decide

/-- A step changes one session and leaves the other. -/
lemma Sound.change (h : Sound specs s) (caller : Caller) {s' : State Cache Chunk}
    (other : s'.session caller.other = s.session caller.other)
    (otherOutput : s'.output caller.other = s.output caller.other)
    (good : Good (specs caller) (s'.session caller) (s'.output caller))
    (holds : ∃ top, Holds ((s'.session caller).entries ++ (s.session caller.other).entries) top
      s'.buffers.memory)
    (written : Written ((s'.session caller).blocks ++ (s.session caller.other).blocks)
      s'.buffers.gpuMemory) :
    Sound specs s' := by
  rw [← other] at holds written
  have goodOther := h.good caller.other
  rw [← other, ← otherOutput] at goodOther
  have own : Written (s'.session caller).blocks s'.buffers.gpuMemory := fun e he =>
    written e (List.mem_append_left _ he)
  have rest : Written (s'.session caller.other).blocks s'.buffers.gpuMemory := fun e he =>
    written e (List.mem_append_right _ he)
  obtain ⟨top, holds⟩ := holds
  cases caller with
  | first =>
    refine ⟨?_, ⟨top, holds⟩, ?_⟩
    · rintro (_ | _)
      · exact good
      · exact goodOther
    · rintro (_ | _)
      · exact own
      · exact rest
  | second =>
    refine ⟨?_, ⟨top, holds.perm List.perm_append_comm⟩, ?_⟩
    · rintro (_ | _)
      · exact goodOther
      · exact good
    · rintro (_ | _)
      · exact rest
      · exact own

@[simp] lemma goOn_session (buffers : Buffers Cache) (session : Session) :
    (s.goOn caller buffers session).session caller = session := by
  simp [State.goOn]

@[simp] lemma goOn_other (buffers : Buffers Cache) (session : Session) :
    (s.goOn caller buffers session).session caller.other = s.session caller.other := by
  simp [State.goOn, other_ne]

@[simp] lemma emit_session (chunk : Chunk) (session : Session) :
    (s.emit caller chunk session).session caller = session := by
  simp [State.emit]

@[simp] lemma emit_other (chunk : Chunk) (session : Session) :
    (s.emit caller chunk session).session caller.other = s.session caller.other := by
  simp [State.emit, other_ne]

@[simp] lemma emit_output (chunk : Chunk) (session : Session) :
    (s.emit caller chunk session).output caller = s.output caller ++ [chunk] := by
  simp [State.emit]

@[simp] lemma emit_output_other (chunk : Chunk) (session : Session) :
    (s.emit caller chunk session).output caller.other = s.output caller.other := by
  simp [State.emit, other_ne]

lemma Sound.goOn (h : Sound specs s) {buffers : Buffers Cache} {session : Session}
    (good : Good (specs caller) session (s.output caller))
    (holds : ∃ top, Holds (session.entries ++ (s.session caller.other).entries) top
      buffers.memory)
    (written : Written (session.blocks ++ (s.session caller.other).blocks) buffers.gpuMemory) :
    Sound specs (s.goOn caller buffers session) := by
  apply h.change caller (goOn_other buffers session) rfl
  · rw [goOn_session]
    exact good
  · rw [goOn_session]
    exact holds
  · rw [goOn_session]
    exact written

lemma Sound.emit (h : Sound specs s) {chunk : Chunk} {session : Session}
    (good : Good (specs caller) session (s.output caller ++ [chunk]))
    (fewer : session.entries.Sublist (s.session caller).entries) (none : session.blocks = []) :
    Sound specs (s.emit caller chunk session) := by
  apply h.change caller (emit_other chunk session) (emit_output_other chunk session)
  · rw [emit_session, emit_output]
    exact good
  · rw [emit_session]
    obtain ⟨top, holds⟩ := h.front caller
    exact ⟨top, holds.sublist (fewer.append_right _)⟩
  · rw [emit_session, none, List.nil_append]
    exact h.written caller.other

lemma Sound.plan (h : Sound specs s) (a : Allocators Cache) (clear : Clear s)
    (fresh : s.session caller = .fresh) : Sound specs (step a specs s (caller, .plan)) := by
  have known := h.known clear caller
  have good := h.good caller
  rw [fresh] at known good
  have run := plan_known a (specs caller).constructs s.buffers known
  simp only [step, fresh]
  rcases planned : Proc.collect (construct a) (specs caller).constructs s.buffers with
    ⟨result, buffers⟩
  rw [planned] at run
  cases result with
  | ok plan => exact h.goOn ⟨good, run.1⟩ ⟨_, run.2.holds⟩ run.2.written
  | error _ => exact h.goOn good ⟨_, run.holds⟩ run.written

lemma Sound.execute (h : Sound specs s) (a : Allocators Cache) (clear : Clear s)
    {plan : List Constructed} (planned : s.session caller = .planned (some plan))
    (truthful : (specs caller).truthful s.buffers.cache) :
    Sound specs (step a specs s (caller, .execute)) := by
  have known := h.known clear caller
  have good := h.good caller
  rw [planned] at known good
  have run := execute_known a s.buffers.cache good.2 s.buffers ⟨rfl, known⟩
  simp only [step, planned]
  rcases executed : (specs caller).execute a plan s.buffers with ⟨result, buffers⟩
  rw [executed] at run
  cases result with
  | ok out =>
    obtain ⟨result, chunks⟩ := out
    obtain ⟨contents, whole, same, count, after⟩ := run
    change result.map Prod.snd = contents at same
    change chunks = _ at count
    apply h.goOn
    · refine ⟨good.1, Nat.zero_le _, ?_⟩
      have answer := (specs caller).agrees s.buffers.cache truthful contents whole
      rw [← same, List.map_map] at answer
      rw [count]
      exact answer
    · refine ⟨_, Holds.sublist after.holds (List.Sublist.append_right ?_ _)⟩
      simp only [Session.entries]
      split
      · exact List.Sublist.refl _
      · exact List.nil_sublist _
    · exact after.written
  | error _ => exact h.goOn ⟨good.1, Nat.zero_le _⟩ ⟨_, run.holds⟩ run.written

lemma Sound.deliver (h : Sound specs s) {buffers : List (Buffer × Bytes)} {chunks fetched : Nat}
    (delivering : s.session caller = .delivering buffers chunks fetched)
    (more : fetched < chunks) :
    ∃ chunk, (specs caller).duckdb[fetched]? = some chunk ∧
      (specs caller).chunk (buffers.map fun x => read s.buffers.memory x.1) fetched = chunk := by
  have good := h.good caller
  rw [delivering] at good
  obtain ⟨_, _, answer⟩ := good
  obtain ⟨top, holds⟩ := h.front caller
  have contents : (buffers.map fun x => read s.buffers.memory x.1) =
      buffers.map fun x => some x.2 := by
    apply List.map_congr_left
    intro x hx
    refine holds.content (x.1, some x.2) (List.mem_append_left _ ?_) x.2 rfl
    rw [delivering]
    simp only [Session.entries, if_pos more]
    exact List.mem_map_of_mem hx
  refine ⟨_, ?_, rfl⟩
  rw [contents, ← answer, List.getElem?_map, List.getElem?_range more]
  rfl

lemma Sound.fetch (h : Sound specs s) : Sound specs (step a specs s (caller, .fetch)) := by
  have good := h.good caller
  match session : s.session caller with
  | .fresh =>
    simp only [step, session]
    exact h
  | .planned plan =>
    simp only [step, session]
    exact h
  | .delivering buffers chunks fetched =>
    simp only [step, session]
    by_cases more : fetched < chunks
    · rw [if_pos more]
      obtain ⟨chunk, answer, delivered⟩ := h.deliver session more
      rw [delivered]
      rw [session] at good
      refine h.emit ⟨?_, more, good.2.2⟩ ?_ rfl
      · rw [good.1, List.take_add_one, answer]
        rfl
      · rw [session]
        simp only [Session.entries, if_pos more]
        split
        · exact List.Sublist.refl _
        · exact List.nil_sublist _
    · rw [if_neg more]
      exact h
  | .answering fetched =>
    simp only [step, session]
    rw [session] at good
    cases answer : (specs caller).duckdb[fetched]? with
    | none => exact h
    | some chunk =>
      refine h.emit ⟨?_, List.getElem?_eq_some_iff.mp answer |>.1⟩ (List.nil_sublist _) rfl
      rw [good.1, List.take_add_one, answer]
      rfl

/-- What one step preserves. -/
theorem step_sound (h : Sound specs s) {move : Step} (guarded : Allocates s move → Clear s)
    (truthful : Truthful specs s move) : Sound specs (step a specs s move) := by
  obtain ⟨caller, kind⟩ := move
  cases kind with
  | fetch => exact h.fetch
  | plan =>
    match session : s.session caller with
    | .fresh => exact h.plan a (guarded session) session
    | .planned _ =>
      simp only [step, session]
      exact h
    | .delivering _ _ _ =>
      simp only [step, session]
      exact h
    | .answering _ =>
      simp only [step, session]
      exact h
  | execute =>
    have good := h.good caller
    match session : s.session caller with
    | .planned (some plan) =>
      exact h.execute a (guarded ⟨plan, session⟩) session (truthful ⟨plan, session⟩)
    | .planned none =>
      simp only [step, session]
      rw [session] at good
      obtain ⟨top, holds⟩ := h.front caller
      exact h.goOn ⟨good, Nat.zero_le _⟩ ⟨top, holds.sublist (List.sublist_append_right _ _)⟩
        (h.written caller.other)
    | .fresh =>
      simp only [step, session]
      exact h
    | .delivering _ _ _ =>
      simp only [step, session]
      exact h
    | .answering _ =>
      simp only [step, session]
      exact h

theorem sound_initial (specs : Caller → CallSpec Cache Chunk) (cache : Cache) :
    Sound specs (initial cache) :=
  ⟨fun _ => rfl, ⟨0, Layout.empty _, fun _ he => by cases he⟩, fun _ _ he => by cases he⟩

theorem run_sound (steps : List Step) (h : Sound specs s) (guarded : Guarded a specs steps s) :
    Sound specs (run a specs steps s) := by
  induction steps generalizing s with
  | nil => exact h
  | cons first rest ih => exact ih (step_sound h guarded.1 guarded.2.1) guarded.2.2

lemma prefix_guarded {steps earlier : List Step} (guarded : Guarded a specs steps s)
    (reached : earlier <+: steps) : Guarded a specs earlier s := by
  induction earlier generalizing s steps with
  | nil => trivial
  | cons first earlier ih =>
    cases steps with
    | nil => cases List.prefix_nil.mp reached
    | cons first' rest =>
      obtain ⟨rfl, more⟩ := List.cons_prefix_cons.mp reached
      exact ⟨guarded.1, guarded.2.1, ih guarded.2.2 more⟩

/-- Live buffers of the two calls lie apart. -/
theorem sound_apart (h : Sound specs s) : s.live.Pairwise fun r r' => ¬ r.Overlaps r' := by
  obtain ⟨top, holds⟩ := h.holds
  have apart := holds.layout.apart
  rw [List.map_append, entries_live, entries_live] at apart
  exact apart

end Runs

section Progress

variable {Cache Chunk : Type} {a : Allocators Cache} {specs : Caller → CallSpec Cache Chunk}
  {s : State Cache Chunk} {caller : Caller}

/-- How far a call has come, whoever answers it. -/
inductive Progress
  | fresh | planned
  | executed (fetched : Nat)

def Session.progress : Session → Progress
  | .fresh => .fresh
  | .planned _ => .planned
  | .delivering _ _ fetched => .executed fetched
  | .answering fetched => .executed fetched

def Progress.next (total : Nat) : Progress → Kind → Progress
  | .fresh, .plan => .planned
  | .planned, .execute => .executed 0
  | .executed fetched, .fetch => .executed (if fetched < total then fetched + 1 else fetched)
  | progress, _ => progress

def Progress.fetched : Progress → Nat
  | .executed fetched => fetched
  | _ => 0

lemma good_output {spec : CallSpec Cache Chunk} {session : Session} {output : List Chunk}
    (good : Good spec session output) : output = spec.duckdb.take session.progress.fetched := by
  match session, good with
  | .fresh, good => exact good
  | .planned none, good => exact good
  | .planned (some _), good => exact good.1
  | .delivering _ _ _, good => exact good.1
  | .answering _, good => exact good.1

/-- A step takes its call as far as it would alone, and the other call nowhere. -/
theorem step_progress (a : Allocators Cache) (caller : Caller) (h : Sound specs s) (kind : Kind) :
    ((step a specs s (caller, kind)).session caller).progress =
        (s.session caller).progress.next (specs caller).duckdb.length kind ∧
      ((step a specs s (caller, kind)).session caller.other).progress =
        (s.session caller.other).progress := by
  have good := h.good caller
  match session : s.session caller, kind with
  | .fresh, .plan =>
    simp only [step, session]
    split
    · simp [Session.progress, Progress.next]
    · simp [Session.progress, Progress.next]
  | .planned none, .execute => simp [step, session, Session.progress, Progress.next]
  | .planned (some _), .execute =>
    simp only [step, session]
    split
    · simp [Session.progress, Progress.next]
    · simp [Session.progress, Progress.next]
  | .delivering buffers chunks fetched, .fetch =>
    rw [session] at good
    have total : chunks = (specs caller).duckdb.length := by simp [← good.2.2]
    simp only [step, session]
    by_cases more : fetched < chunks
    · simp [Session.progress, Progress.next, ← total, more]
    · simp [Session.progress, Progress.next, ← total, more, session]
  | .answering fetched, .fetch =>
    simp only [step, session]
    cases answer : (specs caller).duckdb[fetched]? with
    | some chunk =>
      have more := (List.getElem?_eq_some_iff.mp answer).1
      simp [Session.progress, Progress.next, more]
    | none =>
      have past := List.getElem?_eq_none_iff.mp answer
      simp [Session.progress, Progress.next, session, Nat.not_lt_of_le past]
  | .fresh, .execute => simp [step, session, Session.progress, Progress.next]
  | .fresh, .fetch => simp [step, session, Session.progress, Progress.next]
  | .planned _, .plan => simp [step, session, Session.progress, Progress.next]
  | .planned _, .fetch => simp [step, session, Session.progress, Progress.next]
  | .delivering _ _ _, .plan => simp [step, session, Session.progress, Progress.next]
  | .delivering _ _ _, .execute => simp [step, session, Session.progress, Progress.next]
  | .answering _, .plan => simp [step, session, Session.progress, Progress.next]
  | .answering _, .execute => simp [step, session, Session.progress, Progress.next]

/-- The steps of one of the calls. -/
def own (caller : Caller) (steps : List Step) : List Step := steps.filter (·.1 = caller)

lemma own_cons (caller : Caller) (first : Step) (rest : List Step) :
    own caller (first :: rest) = if first.1 = caller then first :: own caller rest
      else own caller rest := by
  simp [own, List.filter_cons]

theorem run_progress (steps : List Step) (h : Sound specs s) (guarded : Guarded a specs steps s)
    (caller : Caller) :
    ((run a specs steps s).session caller).progress =
      (own caller steps).foldl (fun progress move =>
        progress.next (specs caller).duckdb.length move.2) (s.session caller).progress := by
  induction steps generalizing s with
  | nil => rfl
  | cons first rest ih =>
    have later := ih (step_sound h guarded.1 guarded.2.1) guarded.2.2
    obtain ⟨mover, kind⟩ := first
    have moved := step_progress a mover h kind
    rw [own_cons]
    by_cases same : mover = caller
    · subst same
      rw [if_pos rfl, List.foldl_cons, ← moved.1]
      exact later
    · have other : caller = mover.other := by
        cases mover <;> cases caller <;> simp_all [Caller.other]
      rw [if_neg same]
      rw [other] at later ⊢
      rw [moved.2] at later
      exact later

lemma clear_of_known (caller : Caller)
    (known : Known ((s.session caller).entries ++ (s.session caller.other).entries)
      ((s.session caller).blocks ++ (s.session caller.other).blocks) s.buffers) : Clear s := by
  constructor
  · intro buffer hbuffer
    apply known.holds.layout.below
    rw [List.map_append, entries_live, entries_live]
    cases caller with
    | first => exact hbuffer
    | second => exact List.mem_append.mpr (List.mem_append.mp hbuffer).symm
  · intro owner block hblock
    apply known.allocated
    cases caller <;> cases owner <;> simp [Caller.other, hblock]

/-- What has been taken lies below the pointer or is allocated. -/
lemma plan_clear (h : Sound specs s) (clear : Clear s) (fresh : s.session caller = .fresh) :
    Clear (step a specs s (caller, .plan)) := by
  have known := h.known clear caller
  rw [fresh] at known
  have taken := plan_known a (specs caller).constructs s.buffers known
  apply clear_of_known caller
  simp only [step, fresh]
  rcases planned : Proc.collect (construct a) (specs caller).constructs s.buffers with
    ⟨result, buffers⟩
  rw [planned] at taken
  cases result with
  | ok plan =>
    simp only [goOn_session, goOn_other]
    exact taken.2
  | error _ =>
    simp only [goOn_session, goOn_other]
    exact taken

/-- Only execution changes the cache. -/
lemma step_cache (kind : Kind)
    (waiting : ∀ fetched,
      ((step a specs s (caller, kind)).session caller).progress ≠ .executed fetched) :
    (step a specs s (caller, kind)).buffers.cache = s.buffers.cache := by
  match session : s.session caller, kind with
  | .fresh, .plan =>
    have kept := plan_cache a s.buffers.cache (specs caller).constructs s.buffers rfl
    simp only [step, session]
    rcases planned : Proc.collect (construct a) (specs caller).constructs s.buffers with
      ⟨result, buffers⟩
    rw [planned] at kept
    cases result with
    | ok plan => exact kept
    | error _ => exact kept
  | .planned none, .execute =>
    exact absurd (by simp [step, session, Session.progress]) (waiting 0)
  | .planned (some plan), .execute =>
    refine absurd ?_ (waiting 0)
    simp only [step, session]
    split
    · simp [Session.progress]
    · simp [Session.progress]
  | .delivering buffers chunks fetched, .fetch =>
    simp only [step, session]
    split
    · rfl
    · rfl
  | .answering fetched, .fetch =>
    simp only [step, session]
    split
    · rfl
    · rfl
  | .fresh, .execute => simp [step, session]
  | .fresh, .fetch => simp [step, session]
  | .planned _, .plan => simp [step, session]
  | .planned _, .fetch => simp [step, session]
  | .delivering _ _ _, .plan => simp [step, session]
  | .delivering _ _ _, .execute => simp [step, session]
  | .answering _, .plan => simp [step, session]
  | .answering _, .execute => simp [step, session]

lemma executed_next {progress : Progress} {fetched : Nat} (total : Nat) (kind : Kind)
    (executed : progress = .executed fetched) :
    ∃ fetched, progress.next total kind = .executed fetched := by
  subst executed
  cases kind <;> exact ⟨_, rfl⟩

/-- Alone a call always finds the regions clear and the cache as it was. -/
theorem alone_guarded (caller : Caller) (steps : List Step)
    (alone : ∀ move ∈ steps, move.1 = caller) (h : Sound specs s)
    (other : s.session caller.other = .fresh)
    (clear : (∃ plan, s.session caller = .planned (some plan)) → Clear s)
    (truthful : (∀ fetched, (s.session caller).progress ≠ .executed fetched) →
      (specs caller).truthful s.buffers.cache) :
    Guarded a specs steps s := by
  induction steps generalizing s with
  | nil => trivial
  | cons first rest ih =>
    obtain ⟨mover, kind⟩ := first
    obtain rfl : mover = caller := alone _ List.mem_cons_self
    have guarded : Allocates s (mover, kind) → Clear s := by
      intro allocates
      cases kind with
      | execute => exact clear allocates
      | fetch => cases allocates
      | plan =>
        have fresh : s.session mover = .fresh := allocates
        have none : ∀ owner, s.session owner = .fresh := by
          intro owner
          cases mover <;> cases owner <;> assumption
        constructor
        · intro buffer hbuffer
          rw [State.live, none, none] at hbuffer
          cases hbuffer
        · intro owner block hblock
          rw [none] at hblock
          cases hblock
    have told : Truthful specs s (mover, kind) := by
      cases kind with
      | plan => trivial
      | fetch => trivial
      | execute =>
        rintro ⟨plan, planned⟩
        apply truthful
        intro fetched executed
        rw [planned] at executed
        cases executed
    have moved := step_progress a mover h kind
    refine ⟨guarded, told, ih (fun move hmove => alone move (List.mem_cons_of_mem _ hmove))
      (step_sound h guarded told) ?_ ?_ ?_⟩
    · have stays := moved.2
      rw [other] at stays
      match after : (step a specs s (mover, kind)).session mover.other with
      | .fresh => rfl
      | .planned _ => rw [after] at stays; cases stays
      | .delivering _ _ _ => rw [after] at stays; cases stays
      | .answering _ => rw [after] at stays; cases stays
    · rintro ⟨plan, planned⟩
      have progress := moved.1
      rw [planned] at progress
      match session : s.session mover, kind with
      | .fresh, .plan => exact plan_clear h (guarded session) session
      | .planned (some before), .plan =>
        simp only [step, session]
        exact clear ⟨before, session⟩
      | .planned (some before), .fetch =>
        simp only [step, session]
        exact clear ⟨before, session⟩
      | .planned none, .plan =>
        simp only [step, session] at planned
        cases planned
      | .planned none, .fetch =>
        simp only [step, session] at planned
        cases planned
      | .planned _, .execute =>
        rw [session] at progress
        cases progress
      | .fresh, .execute =>
        rw [session] at progress
        cases progress
      | .fresh, .fetch =>
        rw [session] at progress
        cases progress
      | .delivering _ _ _, kind =>
        obtain ⟨_, executed⟩ := executed_next (specs mover).duckdb.length kind
          (show (s.session mover).progress = _ by rw [session]; rfl)
        rw [executed] at progress
        cases progress
      | .answering _, kind =>
        obtain ⟨_, executed⟩ := executed_next (specs mover).duckdb.length kind
          (show (s.session mover).progress = _ by rw [session]; rfl)
        rw [executed] at progress
        cases progress
    · intro waiting
      rw [step_cache kind waiting]
      apply truthful
      intro fetched executed
      obtain ⟨fetched', next⟩ := executed_next (specs mover).duckdb.length kind executed
      exact waiting fetched' (moved.1.trans next)

lemma run_output {cache : Cache} (steps : List Step)
    (guarded : Guarded a specs steps (initial cache)) :
    (run a specs steps (initial cache)).output caller = (specs caller).duckdb.take
      ((own caller steps).foldl (fun progress move =>
        progress.next (specs caller).duckdb.length move.2) Progress.fresh).fetched := by
  have sound := run_sound steps (sound_initial specs cache) guarded
  rw [good_output (sound.good caller), run_progress steps (sound_initial specs cache) guarded]
  rfl

end Progress

section Witness

/-- Where the allocated blocks end. -/
def top (table : List Buffer) : Nat := table.foldr (fun block high => max block.stop high) 0

theorem le_top {table : List Buffer} {block : Buffer} (member : block ∈ table) :
    block.stop ≤ top table := by
  induction table with
  | nil => cases member
  | cons first rest ih =>
    rcases List.mem_cons.mp member with rfl | member
    · exact Nat.le_max_left _ _
    · exact Nat.le_trans (ih member) (Nat.le_max_right _ _)

/-- A block lies where the last one ends. -/
def bump {Cache : Type} : Allocators Cache where
  processingSizePerCpu := 1000
  allocate := fun s _ => some (top s.allocationTable)
  apart := by
    rintro s bytes start ⟨⟩ block member ⟨-, below, -⟩
    exact absurd (le_top member) (Nat.not_le_of_lt below)

/-- A scan of one column and a row of values, and one byte of result; the cache is the number that
the calls deliver. -/
def oneByte (byte : UInt8) : CallSpec Nat (List (Option Bytes)) where
  constructs := [.tableScan ⟨1, false, by decide⟩, .expressionRow [byte]]
  truthful := fun cache => cache = 7
  execution := fun cache seen => ⟨[[1], [8]], cache, [[5, 5]], [[6]],
    some [[byte], [UInt8.ofNat cache], (seen.getLast?.join).getD []  ++ [0]], 1⟩
  chunk := fun contents _ => contents
  duckdb := [[some [byte], some [7], some [byte, 0]]]
  nonempty := by simp
  agrees := by
    rintro cache rfl result whole
    cases whole
    rfl

def bytes : Caller → CallSpec Nat (List (Option Bytes))
  | .first => oneByte 1
  | .second => oneByte 2

theorem bytes_truthful : ∀ caller, (bytes caller).truthful 7 := by
  rintro (_ | _) <;> rfl

/-- Both calls plan, and the first one then runs to its end. -/
def plannedTogether : List Step :=
  [(.first, .plan), (.second, .plan), (.first, .execute), (.first, .fetch)]

theorem planned_together_guarded : Guarded bump bytes plannedTogether (initial 7) := by
  refine guarded_cons (fun _ => by decide +kernel) trivial ?_
  refine guarded_cons (fun _ => by decide +kernel) trivial ?_
  refine guarded_cons (fun _ => by decide +kernel) (fun _ => ?_) ?_
  · change (step bump bytes (step bump bytes (initial 7) (.first, .plan))
      (.second, .plan)).buffers.cache = 7
    decide +kernel
  · refine guarded_cons ?_ trivial trivial
    rintro ⟨⟩

end Witness

end CallIsolation
