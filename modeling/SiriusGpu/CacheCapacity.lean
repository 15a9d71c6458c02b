import Mathlib
import SiriusGpu.CacheRuns
import SiriusGpu.FirstFit

/-!
# The capacity check of a scan

Before it loads its columns a scan adds up their data and masks and compares the
sum with the size of the cache. What loading asks for is more: each buffer is
padded, strings bring their offsets, and after the cache has been emptied the
columns that were in it are loaded, too.
-/

namespace CacheCapacity

open ThrowingState Proc BufferManager TableScan CacheLayout FirstFit

section Requests

/-- A buffer in the processing region of the CPU or in the caching region. -/
inductive Request
  | host (bytes : Nat)
  | cache (bytes : Nat)
  deriving DecidableEq, Repr

def serve (cfg : Config) : Request → Action Unit
  | .host bytes => customCudaHostAlloc cfg bytes
  | .cache bytes => effect (customCudaMalloc cfg bytes)

/-- What loading a column asks for, in this order. -/
def columnRequests (scan : Scan) (c : TableColumn) : List Request :=
  [.host (columnSize c), .cache (columnSize c), .host scan.maskSize, .cache scan.maskSize] ++
    if c.type = .varchar then
      [.host (8 * (scan.table.rowCount + 1)), .cache (8 * (scan.table.rowCount + 1))]
    else []

/-- The padded sizes of the caching buffers that are asked for before the processing region is
used up. -/
def cacheSizes (limit : Nat) : Nat → List Request → List Nat
  | _, [] => []
  | stop, .host bytes :: rest =>
    if limit ≤ stop + bytes then [] else cacheSizes limit (stop + bytes) rest
  | stop, .cache bytes :: rest => padded bytes :: cacheSizes limit stop rest

def outOfCachingMemory : Exception := .invalidInput "Out of caching memory"

def Config.room (cfg : Config) : Nat × Nat :=
  (cfg.availableGpuCacheSize, cfg.cacheSizePerGpu - cfg.availableGpuCacheSize)

variable {cfg : Config} {s : State}

lemma allocColumn_serves (scan : Scan) (c : TableColumn) :
    effect (allocColumn cfg scan c) = each (serve cfg) (columnRequests scan c) := by
  unfold columnRequests allocColumn
  by_cases strings : c.type = .varchar
  · simp only [if_pos strings, List.cons_append, List.nil_append, each_cons, serve, effect,
      bind_assoc, pure_bind]
    rfl
  · simp only [if_neg strings, List.append_nil, each_cons, serve, effect, bind_assoc, pure_bind]
    rfl

/-- Serving requests fails for lack of caching memory just if their padded sizes cannot be
packed. -/
theorem serve_out_of_memory (requests : List Request) :
    (each (serve cfg) requests s).1 = .error outOfCachingMemory ↔
      pack (Config.room cfg) (s.gpuCachingPointer, s.cpuCachingPointer)
        (cacheSizes cfg.processingSizePerCpu s.cpuProcessingPointer requests) = none := by
  induction requests generalizing s with
  | nil =>
    constructor <;> intro h <;> cases h
  | cons r requests ih =>
    rw [each_cons]
    cases r with
    | host bytes =>
      unfold cacheSizes
      by_cases full : cfg.processingSizePerCpu ≤ s.cpuProcessingPointer + bytes
      · have step : serve cfg (.host bytes) s = (.error (.invalidInput "Out of CPU memory"), _) :=
          if_pos full
        rw [bind_error step, if_pos full]
        simp [outOfCachingMemory, pack]
      · have step : serve cfg (.host bytes) s = (.ok (), _) := if_neg full
        rw [bind_ok step, if_neg full]
        exact ih
    | cache bytes =>
      simp only [cacheSizes, pack, Config.room]
      by_cases gpu : s.gpuCachingPointer + padded bytes ≤ cfg.availableGpuCacheSize
      · have step : customCudaMalloc cfg bytes s = (.ok _, _) := if_pos gpu
        have served : serve cfg (.cache bytes) s = (.ok (), _) := effect_ok step
        rw [bind_ok served, if_pos gpu]
        exact ih
      · rw [if_neg gpu]
        by_cases cpu : s.cpuCachingPointer + padded bytes ≤
            cfg.cacheSizePerGpu - cfg.availableGpuCacheSize
        · have step : customCudaMalloc cfg bytes s = (.ok _, _) :=
            (if_neg gpu).trans (if_neg (Nat.not_lt_of_le cpu))
          have served : serve cfg (.cache bytes) s = (.ok (), _) := effect_ok step
          rw [bind_ok served, if_pos cpu]
          exact ih
        · have step : customCudaMalloc cfg bytes s = (.error outOfCachingMemory, s) :=
            (if_neg gpu).trans (if_pos (Nat.lt_of_not_le cpu))
          have served : serve cfg (.cache bytes) s = (.error outOfCachingMemory, s) :=
            effect_throw step
          rw [bind_error served, if_neg cpu]
          simp

end Requests

section Check

variable {cfg : Config} {catalog : Catalog} {scan : Scan} {s s' : State}

/-- What a scan loads: all its columns if it empties the cache, else those that are missing. -/
def toLoad (cfg : Config) (scan : Scan) (s : State) : List TableColumn :=
  if Evicts cfg scan s then scan.columns else scan.uncached s.tables

/-- What the two parts of the cache hold when the scan starts to load. -/
def filled (cfg : Config) (scan : Scan) (s : State) : Nat × Nat :=
  if Evicts cfg scan s then (0, 0) else (s.gpuCachingPointer, s.cpuCachingPointer)

/-- A scan up to its first allocation for a column. -/
def loadStart (cfg : Config) (catalog : Catalog) (scan : Scan) : Action (List TableColumn) := do
  let columns ← makeRoom cfg scan
  if columns = [] then pure [] else do
    createColumns catalog scan columns
    Proc.each (fun _ => customCudaHostAlloc cfg (8 * scan.columns.length)) (List.range 8)
    pure columns

/-- The rest of the scan. -/
def loadRest (cfg : Config) (scan : Scan) (columns : List TableColumn) : Action Unit :=
  if columns = [] then pure () else do
    let buffers ← Proc.collect (allocColumn cfg scan) columns
    Proc.each (fun _ => outside) scan.chunks
    Proc.each (copyColumn scan) (columns.zip buffers)
    Proc.each (publishColumn scan) (columns.zip buffers)

lemma getDataDuckDB_parts :
    getDataDuckDB cfg catalog scan = loadStart cfg catalog scan >>= loadRest cfg scan := by
  unfold loadStart
  rw [bind_assoc]
  unfold getDataDuckDB
  congr 1
  funext columns
  by_cases none : columns = []
  · rw [if_pos none, if_pos none, pure_bind, loadRest, if_pos rfl]
  · rw [if_neg none, if_neg none]
    simp only [bind_assoc, pure_bind, loadRest, if_neg none]
    rfl

def Spares {α : Type} (x : Action α) : Prop := Raises (· ≠ outOfCachingMemory) x

lemma spares_pure {α : Type} (a : α) : Spares (pure a) := by
  intro s e thrown
  cases thrown

lemma spares_raise {α : Type} {e : Exception} (other : e ≠ outOfCachingMemory) :
    Spares (Proc.raise e : Action α) := by
  intro s e' thrown
  cases thrown
  exact other

lemma spares_update (f : State → State) : Spares (Proc.update f : Action Unit) := by
  intro s e thrown
  cases thrown

lemma spares_outside : Spares outside := by
  intro s e thrown
  unfold outside at thrown
  split at thrown
  · cases thrown
    simp [outOfCachingMemory]
  · cases thrown
  · cases thrown

lemma spares_customCudaHostAlloc (bytes : Nat) : Spares (customCudaHostAlloc cfg bytes) := by
  intro s e thrown
  by_cases full : cfg.processingSizePerCpu ≤ s.cpuProcessingPointer + bytes
  · have run : customCudaHostAlloc cfg bytes s = (.error (.invalidInput "Out of CPU memory"), _) :=
      if_pos full
    rw [run] at thrown
    cases thrown
    simp [outOfCachingMemory]
  · have run : customCudaHostAlloc cfg bytes s = (.ok (), _) := if_neg full
    rw [run] at thrown
    cases thrown

lemma spares_callCudaMemcpyHostToDevice (buffer : Buffer) (content : Content) :
    Spares (callCudaMemcpyHostToDevice buffer content) :=
  Raises.bind spares_outside fun _ => spares_update _

lemma spares_createTableAndColumnInGPU (tableName columnName : Name) :
    Spares (createTableAndColumnInGPU catalog tableName columnName) := by
  apply Raises.bind spares_outside
  intro _
  cases catalog (toUpper tableName) with
  | none => exact spares_raise (by simp [outOfCachingMemory])
  | some table =>
    cases index : table.columns.findIdx? (·.name = columnName) with
    | none =>
      simp only [index]
      exact spares_raise (by simp [outOfCachingMemory])
    | some columnId =>
      simp only [index]
      apply Raises.bind (spares_update _)
      intro _
      cases (table.columns[columnId]?).bind (convertLogicalTypeToColumnType ·.type) with
      | none => exact spares_raise (by simp [outOfCachingMemory])
      | some type =>
        intro s e thrown
        simp only [createColumn] at thrown
        split at thrown
        · cases thrown
          simp [BufferManager.outOfBounds, outOfCachingMemory]
        · split at thrown
          · cases thrown
          · cases thrown
            simp [BufferManager.outOfBounds, outOfCachingMemory]

lemma spares_copyColumn (x : TableColumn × ColumnBuffers) : Spares (copyColumn scan x) := by
  obtain ⟨c, data, mask, offset⟩ := x
  cases offset with
  | none =>
    exact Raises.bind (spares_callCudaMemcpyHostToDevice _ _) fun _ =>
      spares_callCudaMemcpyHostToDevice _ _
  | some offset =>
    unfold copyColumn
    by_cases mismatch : columnSize c ≠ (ColumnFormat.offsets 0 c.slots).getD scan.table.rowCount 0
    · simp only [if_pos mismatch]
      exact spares_raise (by simp [outOfCachingMemory])
    · simp only [if_neg mismatch]
      exact Raises.bind (spares_callCudaMemcpyHostToDevice _ _) fun _ =>
        Raises.bind (spares_callCudaMemcpyHostToDevice _ _) fun _ =>
          spares_callCudaMemcpyHostToDevice _ _

lemma spares_publishColumn (x : TableColumn × ColumnBuffers) : Spares (publishColumn scan x) := by
  obtain ⟨c, b⟩ := x
  intro s e thrown
  simp only [publishColumn] at thrown
  split at thrown
  · cases thrown
    simp [BufferManager.outOfBounds, outOfCachingMemory]
  · split at thrown
    · cases thrown
    · cases thrown
      simp [outOfCachingMemory]

lemma spares_makeRoom : Spares (makeRoom cfg scan) := by
  intro s e thrown
  unfold makeRoom at thrown
  rw [bind_read] at thrown
  by_cases none : scan.uncached s.tables = []
  · rw [if_pos none] at thrown
    cases thrown
  · rw [if_neg none] at thrown
    rcases bind_throws.mp thrown with first | ⟨_, s', _, second⟩
    · exact Raises.each (fun _ => spares_outside) _ s e first
    · rw [bind_read] at second
      split at second
      · split at second
        · cases second
          simp [outOfCachingMemory]
        · cases second
      · cases second

lemma spares_loadStart : Spares (loadStart cfg catalog scan) := by
  apply Raises.bind spares_makeRoom
  intro columns
  by_cases none : columns = []
  · rw [if_pos none]
    exact spares_pure _
  · rw [if_neg none]
    exact Raises.bind (Raises.each (fun _ => spares_createTableAndColumnInGPU _ _) _) fun _ =>
      Raises.bind (Raises.each (fun _ => spares_customCudaHostAlloc _) _) fun _ => spares_pure _

/-- Once the buffers are there, memory is no longer what fails. -/
lemma loadRest_out_of_memory (columns : List TableColumn) :
    (loadRest cfg scan columns s).1 = .error outOfCachingMemory ↔
      (each (serve cfg) (columns.flatMap (columnRequests scan)) s).1 =
        .error outOfCachingMemory := by
  rw [← effect_collect (allocColumn_serves scan), effect_error]
  unfold loadRest
  by_cases none : columns = []
  · rw [if_pos none, none]
    constructor <;> intro thrown <;> cases thrown
  · rw [if_neg none, bind_throws]
    constructor
    · rintro (first | ⟨buffers, s', _, second⟩)
      · exact first
      · have fills : Spares (Proc.each (fun _ => outside) scan.chunks >>= fun _ =>
            Proc.each (copyColumn scan) (columns.zip buffers) >>= fun _ =>
              Proc.each (publishColumn scan) (columns.zip buffers)) :=
          Raises.bind (Raises.each (fun _ => spares_outside) _) fun _ =>
            Raises.bind (Raises.each spares_copyColumn _) fun _ =>
              Raises.each spares_publishColumn _
        exact absurd rfl (fills s' _ second)
    · exact .inl

/-- Where the regions have been allocated up to: both parts of the cache, and the processing
region. -/
def pointers (s : State) : Nat × Nat × Nat :=
  (s.gpuCachingPointer, s.cpuCachingPointer, s.cpuProcessingPointer)

variable {p : Nat × Nat × Nat}

lemma createTableAndColumnInGPU_pointers (tableName columnName : Name) :
    Triple (fun s => pointers s = p) (createTableAndColumnInGPU catalog tableName columnName)
      (fun _ s => pointers s = p) (fun _ => True) := by
  apply Triple.bind
    ((outside_keeps fun _ _ h => h).weaken (fun _ h => h) (fun _ _ h => h) fun _ _ => trivial)
  intro _
  cases catalog (toUpper tableName) with
  | none => exact Triple.raise fun _ _ => trivial
  | some table =>
    cases index : table.columns.findIdx? (·.name = columnName) with
    | none =>
      simp only [index]
      exact Triple.raise fun _ _ => trivial
    | some columnId =>
      simp only [index]
      have created : Triple (fun s => pointers s = p)
          (createTable (toUpper tableName) table.columns.length)
          (fun _ s => pointers s = p) (fun _ => True) := by
        apply Triple.update
        intro s h
        split
        · exact h
        · exact h
      apply Triple.bind created
      intro _
      cases (table.columns[columnId]?).bind (convertLogicalTypeToColumnType ·.type) with
      | none => exact Triple.raise fun _ _ => trivial
      | some type =>
        intro s h
        simp only [createColumn]
        cases s.tables (toUpper tableName) with
        | none => trivial
        | some slots =>
          by_cases inside : columnId < slots.length
          · simp only [if_pos inside]
            exact h
          · simp only [if_neg inside]

lemma customCudaHostAlloc_pointers {gpu cpu host : Nat} (bytes : Nat) :
    Triple (fun s => pointers s = (gpu, cpu, host)) (customCudaHostAlloc cfg bytes)
      (fun _ s => pointers s = (gpu, cpu, host + bytes)) (fun _ => True) := by
  intro s h
  simp only [pointers, Prod.mk.injEq] at h
  by_cases full : cfg.processingSizePerCpu ≤ s.cpuProcessingPointer + bytes
  · have run : customCudaHostAlloc cfg bytes s = (.error _, _) := if_pos full
    rw [run]
    trivial
  · have run : customCudaHostAlloc cfg bytes s = (.ok (), _) := if_neg full
    rw [run]
    simp only [pointers, Prod.mk.injEq]
    omega

lemma hostAllocs_pointers {gpu cpu host : Nat} (bytes : Nat) (l : List Nat) :
    Triple (fun s => pointers s = (gpu, cpu, host))
      (Proc.each (fun _ => customCudaHostAlloc cfg bytes) l)
      (fun _ s => pointers s = (gpu, cpu, host + l.length * bytes)) (fun _ => True) := by
  have loop : Triple (fun s => pointers s = (gpu, cpu, host + ([] : List Nat).length * bytes))
      (Proc.each (fun _ => customCudaHostAlloc cfg bytes) l)
      (fun _ s => pointers s = (gpu, cpu, host + l.length * bytes)) (fun _ => True) := by
    apply Triple.each (I := fun done s => pointers s = (gpu, cpu, host + done.length * bytes))
    intro done b _ _
    apply (customCudaHostAlloc_pointers bytes).post
    intro _ s h
    rw [h, List.length_append, List.length_singleton, Nat.add_mul, Nat.one_mul, Nat.add_assoc]
  simpa using loop

/-- The columns are registered and the arrays of pointers allocated. -/
lemma register_pointers {gpu cpu host : Nat} (columns : List TableColumn) :
    Triple (fun s => pointers s = (gpu, cpu, host))
      (createColumns catalog scan columns >>= fun _ =>
        Proc.each (fun _ => customCudaHostAlloc cfg (8 * scan.columns.length)) (List.range 8)
          >>= fun _ => pure columns)
      (fun columns' s => columns' = columns ∧
        pointers s = (gpu, cpu, host + 64 * scan.columns.length))
      (fun _ => True) := by
  apply Triple.bind (Triple.each (I := fun _ s => pointers s = (gpu, cpu, host))
    fun _ _ _ _ => createTableAndColumnInGPU_pointers _ _)
  intro _
  apply Triple.bind (hostAllocs_pointers _ _)
  intro _
  apply Triple.ret
  intro s h
  refine ⟨rfl, h.trans ?_⟩
  simp only [List.length_range, Prod.mk.injEq, true_and]
  omega

/-- What a scan loads, and the state it loads it in. -/
theorem loadStart_pointers {columns : List TableColumn}
    (start : loadStart cfg catalog scan s = (.ok columns, s')) :
    columns = toLoad cfg scan s ∧ (columns ≠ [] → pointers s' =
      ((filled cfg scan s).1, (filled cfg scan s).2,
        s.cpuProcessingPointer + 64 * scan.columns.length)) := by
  have registered : ∀ (chosen : List TableColumn) (roomy : State),
      makeRoom cfg scan s = (.ok chosen, roomy) → columns = chosen ∧
        (columns ≠ [] → pointers s' = (roomy.gpuCachingPointer, roomy.cpuCachingPointer,
          roomy.cpuProcessingPointer + 64 * scan.columns.length)) := by
    intro chosen roomy room
    unfold loadStart at start
    rw [bind_ok room] at start
    by_cases none : chosen = []
    · rw [if_pos none] at start
      cases start
      exact ⟨none.symm, fun some => absurd rfl some⟩
    · rw [if_neg none] at start
      have run := @register_pointers cfg catalog scan _ _ _ chosen roomy rfl
      rw [start] at run
      exact ⟨run.1, fun _ => run.2⟩
  rcases makeRoom_cases cfg scan s with ⟨stays, _, room⟩ | ⟨_, e, _, room⟩ | ⟨evicts, _, room⟩
  · have parts := registered _ _ room
    simp only [toLoad, filled, if_neg stays]
    exact parts
  · unfold loadStart at start
    rw [bind_error room] at start
    cases start
  · have parts := registered _ _ room
    simp only [toLoad, filled, if_pos evicts]
    exact parts

end Check

section Soundness

variable {cfg : Config} {catalog : Catalog} {scan : Scan} {s : State}

/-- The sum the check compares with the size of the cache speaks of the uncached columns alone,
and a scan that goes on to load never runs out of caching memory. -/
structure CheckSound (cfg : Config) (catalog : Catalog) (scan : Scan) (s : State) : Prop where
  total : scan.uncached s.tables ≠ [] → scan.totalSize (scan.uncached s.tables) =
    ((scan.uncached s.tables).map fun c => columnSize c + scan.maskSize).sum
  room : (getDataDuckDB cfg catalog scan s).1 ≠ .error outOfCachingMemory

/-- The padded sizes of the caching buffers for the columns to load. -/
def loadSizes (cfg : Config) (scan : Scan) (s : State) : List Nat :=
  cacheSizes cfg.processingSizePerCpu (s.cpuProcessingPointer + 64 * scan.columns.length)
    ((toLoad cfg scan s).flatMap (columnRequests scan))

/-- The scan gets as far as to load its columns. -/
def Starts (cfg : Config) (catalog : Catalog) (scan : Scan) (s : State) : Prop :=
  ∃ columns s', loadStart cfg catalog scan s = (.ok columns, s')

theorem out_of_memory_iff : (getDataDuckDB cfg catalog scan s).1 = .error outOfCachingMemory ↔
    Starts cfg catalog scan s ∧
      pack (Config.room cfg) (filled cfg scan s) (loadSizes cfg scan s) = none := by
  rw [getDataDuckDB_parts, bind_throws]
  have packed : ∀ {columns : List TableColumn} {s' : State},
      loadStart cfg catalog scan s = (.ok columns, s') →
      ((loadRest cfg scan columns s').1 = .error outOfCachingMemory ↔
        pack (Config.room cfg) (filled cfg scan s) (loadSizes cfg scan s) = none) := by
    intro columns s' start
    obtain ⟨rfl, moved⟩ := loadStart_pointers start
    rw [loadRest_out_of_memory, serve_out_of_memory]
    by_cases none : toLoad cfg scan s = []
    · simp only [loadSizes, none, List.flatMap_nil, cacheSizes, pack]
      constructor <;> intro h <;> cases h
    · have at' := moved none
      simp only [pointers, Prod.mk.injEq] at at'
      rw [at'.1, at'.2.1, at'.2.2]
      rfl
  constructor
  · rintro (first | ⟨columns, s', start, second⟩)
    · exact absurd rfl (spares_loadStart s _ first)
    · exact ⟨⟨columns, s', start⟩, (packed start).mp second⟩
  · rintro ⟨⟨columns, s', start⟩, full⟩
    exact .inr ⟨columns, s', start, (packed start).mpr full⟩

theorem room_iff : (getDataDuckDB cfg catalog scan s).1 ≠ .error outOfCachingMemory ↔
    (Starts cfg catalog scan s →
      (pack (Config.room cfg) (filled cfg scan s) (loadSizes cfg scan s)).isSome) := by
  rw [ne_eq, out_of_memory_iff, not_and, Option.isSome_iff_ne_none]

/-- Where the whole cache is on the GPU, the sum of the padded buffers decides. -/
theorem room_iff_sum (whole : cfg.availableGpuCacheSize = cfg.cacheSizePerGpu)
    (gpu : s.gpuCachingPointer ≤ cfg.availableGpuCacheSize) (cpu : s.cpuCachingPointer = 0) :
    (getDataDuckDB cfg catalog scan s).1 ≠ .error outOfCachingMemory ↔
      (Starts cfg catalog scan s → (filled cfg scan s).1 + (loadSizes cfg scan s).sum ≤
        cfg.availableGpuCacheSize) := by
  have none : (Config.room cfg).2 = 0 := by
    simp only [Config.room]
    omega
  have start : (filled cfg scan s).1 ≤ (Config.room cfg).1 ∧
      (filled cfg scan s).2 ≤ (Config.room cfg).2 := by
    unfold filled
    split
    · exact ⟨Nat.zero_le _, Nat.zero_le _⟩
    · exact ⟨gpu, by simp only [cpu, Nat.zero_le]⟩
  rw [room_iff, pack_one none start]
  rfl

/-- The check is sound just if no row-id column adds to the sum, and the padded buffers of a
scan that starts to load can be packed into what is left of the cache. -/
theorem checkSound_iff (cfg : Config) (catalog : Catalog) (scan : Scan) (s : State) :
    CheckSound cfg catalog scan s ↔
      (scan.uncached s.tables ≠ [] → scan.unsetSize = 0) ∧
      (Starts cfg catalog scan s →
        (pack (Config.room cfg) (filled cfg scan s) (loadSizes cfg scan s)).isSome) := by
  have total : scan.totalSize (scan.uncached s.tables) =
      ((scan.uncached s.tables).map fun c => columnSize c + scan.maskSize).sum ↔
      scan.unsetSize = 0 := by
    unfold Scan.totalSize
    omega
  constructor
  · rintro ⟨sum, room⟩
    exact ⟨fun missing => total.mp (sum missing), room_iff.mp room⟩
  · rintro ⟨unset, fits⟩
    exact ⟨fun missing => total.mpr (unset missing), room_iff.mpr fits⟩

/-- Four bytes and a mask of 64 pass the check against 300, and take 512. -/
theorem not_every_check_sound : ¬ ∀ (cfg : Config) (catalog : Catalog) (scan : Scan) (s : State),
    CheckSound cfg catalog scan s := by
  intro all
  have room := (all CacheRuns.narrow CacheRuns.oneTable CacheRuns.readAll initial).room
  have out : (getDataDuckDB CacheRuns.narrow CacheRuns.oneTable CacheRuns.readAll initial).1 =
      .error outOfCachingMemory := by decide +kernel
  exact room out

end Soundness

end CacheCapacity
