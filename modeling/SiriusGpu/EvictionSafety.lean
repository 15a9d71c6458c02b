import SiriusGpu.CacheRuns
import SiriusGpu.PipelineBuild

/-!
# Eviction inside a query

Late materialization lets the relations a query keeps between its pipelines refer to
columns in the caching region. A scan that finds the cache full empties it whatever
refers to it. As long as no scan does so while a relation that is kept refers to the
cache, what a scan allocates lies apart from all that is kept, and all that is kept
has its contents after the scan.
-/

namespace EvictionSafety

open ThrowingState BufferArena BufferManager TableScan CacheLayout PhysicalPlan PipelineBuild
open FallibleMaps (mapM_some_iff exists_of_forall₂)

section Model

/-- A column of an operator's output: one of its input or of what it keeps, seen through row
ids, or a new one in the processing region. -/
inductive Origin
  | input (i : Nat) (rowIds : Option (List Nat))
  | kept (i : Nat) (rowIds : Option (List Nat))
  | new (columnLength : Nat) (type : GPUColumnType)
  deriving DecidableEq, Repr

def Origin.column (input kept : GPUIntermediateRelation) : Origin → Option GPUColumn
  | .input i rowIds => (input[i]?).map fun column => { column with rowIds }
  | .kept i rowIds => (kept[i]?).map fun column => { column with rowIds }
  | .new columnLength type => some ⟨columnLength, type, none, none, none, none⟩

/-- A query as it is bound: its scans, where its operators take their output from, which
operator fills the collection that another one scans, and its pipelines in some order. -/
structure Query where
  catalog : Catalog
  credit : Option Nat
  scan : OpId → Scan
  selected : OpId → Option (List Nat)
  origins : OpId → List Origin
  collection : OpId → OpId
  scheduled : List Pipeline

/-- `kept` are the relations that outlive a pipeline, by the operator that holds them: the
`hash_table_result` of a join, the collection of a CTE, the result of an aggregate. -/
structure Execution where
  state : State
  kept : OpId → GPUIntermediateRelation

variable (cfg : Config) (query : Query)

/-- What a collection keeps of a column. -/
def collected (column : GPUColumn) : GPUColumn :=
  ⟨column.columnLength, column.type, column.data, none, none, none⟩

def Query.pass (op : Operator) (input kept : GPUIntermediateRelation) : GPUIntermediateRelation :=
  (query.origins op.id).filterMap (Origin.column input kept)

def Query.source (kept : OpId → GPUIntermediateRelation) (op : Operator) :
    Action GPUIntermediateRelation :=
  match op.type with
  | .scan .tableScan => do
    getDataDuckDB cfg query.catalog (query.scan op.id)
    getData (query.scan op.id) (query.selected op.id)
  | .scan .columnDataScan | .cteScan | .recursiveCteScan | .delimScan =>
    pure ((kept (query.collection op.id)).map collected)
  | _ => pure (query.pass op [] (kept op.id))

def Query.execute (kept : OpId → GPUIntermediateRelation) (input : GPUIntermediateRelation)
    (op : Operator) : GPUIntermediateRelation :=
  query.pass op input (kept op.id)

def Query.sink (kept : OpId → GPUIntermediateRelation) (input : GPUIntermediateRelation)
    (op : Operator) : OpId → GPUIntermediateRelation :=
  match op.type with
  | .join _ => Function.update kept op.id input
  | .cte _ => Function.update kept op.id (input.map collected)
  | .leftDelimJoin distinct cachedScan =>
    Function.update (Function.update kept cachedScan input) distinct
      (query.pass ⟨distinct, .unary .hashGroupBy⟩ input [])
  | .rightDelimJoin distinct join _ =>
    Function.update (Function.update kept join input) distinct
      (query.pass ⟨distinct, .unary .hashGroupBy⟩ input [])
  | .unary _ => Function.update kept op.id (query.pass op input [])
  | _ => kept

/-- The body of the executor's loop for one pipeline. -/
def Query.runPipeline (p : Pipeline) : Proc Execution Exception Unit := fun e =>
  match (p.source.elim (pure []) (query.source cfg e.kept)) e.state with
  | (.ok input, s) =>
    let output := p.operators.foldl (query.execute e.kept) input
    (.ok (), ⟨s, p.sink.elim e.kept (query.sink e.kept output)⟩)
  | (.error thrown, s) => (.error thrown, { e with state := s })

def Query.start (s : State) : Execution := ⟨{ s with credit := query.credit }, fun _ => []⟩

/-- The executor's loop; the buffers are reset after it, whether it has thrown or not. -/
def Query.execution (pipelines : List Pipeline) : Proc Execution Exception Unit :=
  Proc.each (query.runPipeline cfg) pipelines

def afterQueries (queries : List Query) : State :=
  queries.foldl (fun s query =>
    resetBuffer (query.execution cfg query.scheduled (query.start s)).2.state) initial

end Model

section Safety

/-- A relation that is kept refers to the buffer. -/
def Live (e : Execution) (buffer : Buffer) : Prop :=
  ∃ op, ∃ column ∈ e.kept op, buffer ∈ references column

/-- What has been allocated since lies apart from the live buffers, and these have their
contents. -/
def Spares (e : Execution) (s : State) : Prop :=
  (∃ new, s.handedOut = new ++ e.state.handedOut ∧
    ∀ buffer, Live e buffer → ∀ r ∈ new, ¬ r.Overlaps buffer) ∧
  ∀ buffer, Live e buffer → (read e.state.memory buffer).isSome ∧
    read s.memory buffer = read e.state.memory buffer

/-- The source of the pipeline is a scan that empties the cache. -/
def EvictsIn (cfg : Config) (query : Query) (e : Execution) (p : Pipeline) : Prop :=
  ∃ op ∈ p.source, op.type = .scan .tableScan ∧ Evicts cfg (query.scan op.id) e.state

/-- No scan of the pipelines empties the cache while a relation that is kept refers to it. -/
def Careful (cfg : Config) (query : Query) : Execution → List Pipeline → Prop
  | _, [] => True
  | e, p :: later => (EvictsIn cfg query e p → ∀ buffer, ¬ Live e buffer) ∧
      ∀ e', query.runPipeline cfg p e = (.ok (), e') → Careful cfg query e' later

end Safety

section Flow

variable {query : Query} {buffers : List Buffer} {kept : OpId → GPUIntermediateRelation}
  {input : GPUIntermediateRelation}

/-- The relation refers to none but these buffers. -/
def From (buffers : List Buffer) (relation : GPUIntermediateRelation) : Prop :=
  ∀ column ∈ relation, ∀ buffer ∈ references column, buffer ∈ buffers

lemma from_nil : From buffers [] := by
  intro column none
  cases none

lemma From.mono {relation : GPUIntermediateRelation} {buffers' : List Buffer}
    (h : From buffers relation) (more : buffers ⊆ buffers') : From buffers' relation := by
  intro column hcolumn buffer hbuffer
  exact more (h column hcolumn buffer hbuffer)

lemma From.collected {relation : GPUIntermediateRelation} (h : From buffers relation) :
    From buffers (relation.map collected) := by
  intro column hcolumn buffer hbuffer
  obtain ⟨before, hbefore, rfl⟩ := List.mem_map.mp hcolumn
  apply h before hbefore
  have data : buffer ∈ before.data.toList := by
    simpa [references, EvictionSafety.collected] using hbuffer
  exact List.mem_append_left _ data

lemma Origin.from {kept : GPUIntermediateRelation} (hinput : From buffers input)
    (hkept : From buffers kept) {origin : Origin} {column : GPUColumn}
    (h : origin.column input kept = some column) :
    ∀ buffer ∈ references column, buffer ∈ buffers := by
  cases origin with
  | input i rowIds =>
    obtain ⟨before, hbefore, rfl⟩ := Option.map_eq_some_iff.mp h
    exact hinput before (List.mem_of_getElem? hbefore)
  | kept i rowIds =>
    obtain ⟨before, hbefore, rfl⟩ := Option.map_eq_some_iff.mp h
    exact hkept before (List.mem_of_getElem? hbefore)
  | new columnLength type =>
    obtain rfl := Option.some.inj h
    intro buffer hbuffer
    simp [references] at hbuffer

lemma pass_from {op : Operator} {kept : GPUIntermediateRelation} (hinput : From buffers input)
    (hkept : From buffers kept) : From buffers (query.pass op input kept) := by
  intro column hcolumn
  obtain ⟨origin, _, h⟩ := List.mem_filterMap.mp hcolumn
  exact Origin.from hinput hkept h

lemma executes_from (query : Query) (hkept : ∀ op, From buffers (kept op))
    (hinput : From buffers input)
    (operators : List Operator) : From buffers (operators.foldl (query.execute kept) input) := by
  induction operators generalizing input with
  | nil => exact hinput
  | cons op operators ih => exact ih (pass_from hinput (hkept op.id))

lemma update_from (hkept : ∀ op, From buffers (kept op)) (hinput : From buffers input)
    (id : OpId) : ∀ op, From buffers (Function.update kept id input op) := by
  intro op
  by_cases here : op = id
  · subst here
    rwa [Function.update_self]
  · rw [Function.update_of_ne here]
    exact hkept op

lemma sink_from (hkept : ∀ op, From buffers (kept op)) (hinput : From buffers input)
    (op : Operator) : ∀ id, From buffers (query.sink kept input op id) := by
  obtain ⟨id, type⟩ := op
  cases type with
  | join kind => exact update_from hkept hinput id
  | cte cteScans => exact update_from hkept hinput.collected id
  | leftDelimJoin distinct cachedScan =>
    exact update_from (update_from hkept hinput cachedScan) (pass_from hinput from_nil) distinct
  | rightDelimJoin distinct join kind =>
    exact update_from (update_from hkept hinput join) (pass_from hinput from_nil) distinct
  | unary unaryType => exact update_from hkept (pass_from hinput from_nil) id
  | scan scanType => exact hkept
  | delimScan => exact hkept
  | cteScan => exact hkept
  | recursiveCteScan => exact hkept
  | resultCollector => exact hkept

end Flow

section Scan

variable {cfg : Config} {query : Query} {known : List (Buffer × Content)} {base : List Buffer}
  {scan : Scan} {s : State}

/-- The known buffers are as they were, and the relation refers to live ones. -/
def Gives (known : List (Buffer × Content)) (base : List Buffer)
    (output : GPUIntermediateRelation) (s : State) : Prop :=
  ∃ filled, Holds known base filled [] s.tables s ∧ From ((filled ++ known).map Prod.fst) output

theorem getData_gives (scan : Scan) (selected : Option (List Nat)) :
    Triple (Left known base) (getData scan selected) (Gives known base) (Left known base) := by
  rintro s ⟨filled, h⟩
  cases present : s.tables (toUpper scan.table.name) with
  | none =>
    simp only [getData, present]
    exact ⟨filled, h⟩
  | some slots =>
    by_cases cached : scan.columns.all (fun c => slots.any (·.name = toUpper c.name)) = true
    · obtain ⟨slots', resets, run⟩ := getData_eq selected present cached
      have pointers : limit (s.setTable (toUpper scan.table.name) slots') = limit s := rfl
      have after := h.reset pointers rfl rfl (setTable_reset present resets)
      rw [run]
      cases made : scan.outputIds.mapM fun id => scannedColumn selected slots' id.val with
      | none => exact ⟨filled, after⟩
      | some output =>
        refine ⟨filled, after, ?_⟩
        intro column hcolumn
        obtain ⟨id, _, hid⟩ := exists_of_forall₂ (mapM_some_iff.mp made).flip hcolumn
        obtain ⟨slot, hslot, hid⟩ := Option.bind_eq_some_iff.mp hid
        obtain ⟨before, hbefore, rfl⟩ := Option.map_eq_some_iff.mp hid
        have own : (s.setTable (toUpper scan.table.name) slots').tables
            (toUpper scan.table.name) = some slots' := Function.update_self _ _ _
        exact after.within _ _ own slot (List.mem_of_getElem? hslot) before hbefore
    · simp only [getData, present, cached]
      exact ⟨filled, h⟩

/-- Every other source passes on what is kept. -/
lemma source_pure (cfg : Config) (query : Query) {kept : OpId → GPUIntermediateRelation}
    {buffers : List Buffer} (hkept : ∀ op, From buffers (kept op)) {op : Operator}
    (other : op.type ≠ .scan .tableScan) :
    ∃ relation, From buffers relation ∧ query.source cfg kept op = pure relation := by
  unfold Query.source
  split
  · exact absurd ‹_› other
  · exact ⟨_, (hkept _).collected, rfl⟩
  · exact ⟨_, (hkept _).collected, rfl⟩
  · exact ⟨_, (hkept _).collected, rfl⟩
  · exact ⟨_, (hkept _).collected, rfl⟩
  · exact ⟨_, pass_from from_nil (hkept op.id), rfl⟩

/-- The source of a pipeline that does not empty the cache. -/
theorem source_gives (cfg : Config) {kept : OpId → GPUIntermediateRelation}
    (hkept : ∀ op, From (known.map Prod.fst) (kept op)) (op : Operator) :
    Triple (fun s => ¬ (op.type = .scan .tableScan ∧ Evicts cfg (query.scan op.id) s) ∧
        Left known base s) (query.source cfg kept op) (Gives known base) (Left known base) := by
  by_cases scans : op.type = .scan .tableScan
  · obtain ⟨id, type⟩ := op
    obtain rfl := scans
    apply Triple.bind
    · apply (getDataDuckDB_left cfg query.catalog (query.scan id)).pre
      rintro s ⟨stays, h⟩
      exact ⟨fun evicts => stays ⟨rfl, evicts⟩, h⟩
    · intro _
      exact getData_gives _ _
  · obtain ⟨relation, passed, source⟩ := source_pure cfg query hkept scans
    rw [source]
    apply Triple.ret
    rintro s ⟨_, filled, holds⟩
    exact ⟨filled, holds, passed.mono (List.map_subset _ (List.subset_append_right _ _))⟩

/-- A scan that empties the cache, and so must not be asked to keep anything. -/
theorem source_emptied (cfg : Config) (query : Query) (kept : OpId → GPUIntermediateRelation)
    {op : Operator} (scans : op.type = .scan .tableScan) :
    Triple (fun s => Evicts cfg (query.scan op.id) s ∧ s.handedOut = base)
      (query.source cfg kept op) (Gives [] base) (Left [] base) := by
  obtain ⟨id, type⟩ := op
  obtain rfl := scans
  apply Triple.bind (getDataDuckDB_emptied cfg query.catalog (query.scan id) base)
  intro _
  exact getData_gives _ _

end Scan

section Runs

variable {cfg : Config} {query : Query} {e e' : Execution} {p : Pipeline}

/-- The buffers of the cache lie apart, and what is kept refers to them. -/
def Tidy (e : Execution) : Prop :=
  ∃ filled, Holds [] [] filled [] e.state.tables e.state ∧
    ∀ op, From (filled.map Prod.fst) (e.kept op)

lemma Live.mem {buffers : List Buffer} (h : ∀ op, From buffers (e.kept op)) {buffer : Buffer}
    (live : Live e buffer) : buffer ∈ buffers := by
  obtain ⟨op, column, hcolumn, hbuffer⟩ := live
  exact h op column hcolumn buffer hbuffer

lemma from_of_not_live (dead : ∀ buffer, ¬ Live e buffer) (op : OpId) : From [] (e.kept op) := by
  intro column hcolumn buffer hbuffer
  exact absurd ⟨op, column, hcolumn, hbuffer⟩ (dead buffer)

/-- What is known and not touched by a step is spared by it. -/
lemma Left.spares {known : List (Buffer × Content)} {s : State}
    (hkept : ∀ op, From (known.map Prod.fst) (e.kept op))
    (content : ∀ entry ∈ known, read e.state.memory entry.1 = some entry.2)
    (h : Left known e.state.handedOut s) : Spares e s := by
  obtain ⟨filled, holds⟩ := h
  constructor
  · obtain ⟨new, history, apart⟩ := holds.log
    refine ⟨new, history, ?_⟩
    intro buffer live r hr
    obtain ⟨entry, hentry, rfl⟩ := List.mem_map.mp (live.mem hkept)
    exact apart r hr entry hentry
  · intro buffer live
    obtain ⟨entry, hentry, rfl⟩ := List.mem_map.mp (live.mem hkept)
    have before := content entry hentry
    have after := holds.content entry (List.mem_append_right _ hentry)
    exact ⟨by rw [before]; rfl, after.trans before.symm⟩

lemma Gives.left {known : List (Buffer × Content)} {base : List Buffer}
    {output : GPUIntermediateRelation} {s : State} (h : Gives known base output s) :
    Left known base s := by
  obtain ⟨filled, holds, _⟩ := h
  exact ⟨filled, holds⟩

/-- A pipeline whose source does not empty the cache under what is kept: some entries cover all
that is kept, and the source keeps them. -/
lemma source_covers (tidy : Tidy e) {op : Operator}
    (careful : op.type = .scan .tableScan ∧ Evicts cfg (query.scan op.id) e.state →
      ∀ buffer, ¬ Live e buffer) :
    ∃ known, (∀ id, From (known.map Prod.fst) (e.kept id)) ∧
      (∀ entry ∈ known, read e.state.memory entry.1 = some entry.2) ∧
      Triple (fun s => s = e.state) (query.source cfg e.kept op)
        (Gives known e.state.handedOut) (Left known e.state.handedOut) := by
  obtain ⟨filled, holds, hkept⟩ := tidy
  by_cases evicts : op.type = .scan .tableScan ∧ Evicts cfg (query.scan op.id) e.state
  · refine ⟨[], from_of_not_live (careful evicts), ?_, ?_⟩
    · intro entry none
      cases none
    · apply (source_emptied cfg query e.kept evicts.1).pre
      rintro s rfl
      exact ⟨evicts.2, rfl⟩
  · refine ⟨filled, hkept, ?_, ?_⟩
    · intro entry hentry
      exact holds.content entry (List.mem_append_left _ hentry)
    · apply (source_gives cfg hkept op).pre
      rintro s rfl
      exact ⟨evicts, [], holds.remember⟩

/-- The same for a pipeline, whatever its source. -/
lemma pipeline_covers (tidy : Tidy e)
    (careful : EvictsIn cfg query e p → ∀ buffer, ¬ Live e buffer) :
    ∃ known, (∀ id, From (known.map Prod.fst) (e.kept id)) ∧
      (∀ entry ∈ known, read e.state.memory entry.1 = some entry.2) ∧
      Triple (fun s => s = e.state) (p.source.elim (pure []) (query.source cfg e.kept))
        (Gives known e.state.handedOut) (Left known e.state.handedOut) := by
  cases source : p.source with
  | none =>
    obtain ⟨filled, holds, hkept⟩ := tidy
    refine ⟨filled, hkept, ?_, ?_⟩
    · intro entry hentry
      exact holds.content entry (List.mem_append_left _ hentry)
    · apply Triple.ret
      rintro s rfl
      exact ⟨[], holds.remember, from_nil⟩
  | some op =>
    apply source_covers tidy
    rintro ⟨scans, evicts⟩
    exact careful ⟨op, source, scans, evicts⟩

theorem runPipeline_spares (tidy : Tidy e)
    (careful : EvictsIn cfg query e p → ∀ buffer, ¬ Live e buffer) :
    Spares e (query.runPipeline cfg p e).2.state ∧
      ∀ e', query.runPipeline cfg p e = (.ok (), e') → Tidy e' := by
  obtain ⟨known, hkept, content, triple⟩ := pipeline_covers tidy careful
  have outcome := triple e.state rfl
  unfold Query.runPipeline
  rcases run : (p.source.elim (pure []) (query.source cfg e.kept)) e.state with ⟨result, s⟩
  rw [run] at outcome
  cases result with
  | error thrown =>
    refine ⟨Left.spares hkept content outcome, ?_⟩
    rintro e' ⟨⟩
  | ok input =>
    refine ⟨Left.spares hkept content (Gives.left outcome), ?_⟩
    rintro e' ⟨⟩
    obtain ⟨filled, holds, passed⟩ := outcome
    have all : ∀ id, From ((filled ++ known).map Prod.fst) (e.kept id) := fun id =>
      (hkept id).mono (List.map_subset _ (List.subset_append_right _ _))
    refine ⟨filled ++ known, holds.forget, ?_⟩
    have output := executes_from query all passed p.operators
    cases p.sink with
    | none => exact all
    | some op => exact sink_from all output op

/-- Whatever a query does to itself, the cache is in order when the next one starts. -/
lemma source_arranged (cfg : Config) (query : Query) (kept : OpId → GPUIntermediateRelation)
    (op : Operator) : Triple (Left [] []) (query.source cfg kept op) (fun _ => Left [] [])
      (Left [] []) := by
  by_cases scans : op.type = .scan .tableScan
  · obtain ⟨id, type⟩ := op
    obtain rfl := scans
    apply Triple.bind (Q := fun _ => Left [] [])
    · intro s h
      by_cases evicts : Evicts cfg (query.scan id) s
      · have run := getDataDuckDB_emptied cfg query.catalog (query.scan id) s.handedOut
        exact (run.weaken (fun _ h => h) (fun _ _ h => h.arranged) fun _ h => h.arranged) s
          ⟨evicts, rfl⟩
      · exact getDataDuckDB_left cfg query.catalog (query.scan id) s ⟨evicts, h⟩
    · intro _
      exact (getData_gives _ _).post fun _ _ h => Gives.left h
  · unfold Query.source
    split
    · exact absurd ‹_› scans
    all_goals exact Triple.ret fun _ h => h

lemma runPipeline_arranged (cfg : Config) (query : Query) (p : Pipeline) :
    Triple (fun e => Left [] [] e.state) (query.runPipeline cfg p)
      (fun _ e => Left [] [] e.state) (fun e => Left [] [] e.state) := by
  intro e h
  have source : Triple (Left [] []) (p.source.elim (pure []) (query.source cfg e.kept))
      (fun _ => Left [] []) (Left [] []) := by
    cases p.source with
    | none => exact Triple.ret fun _ h => h
    | some op => exact source_arranged cfg query e.kept op
  have outcome := source e.state h
  unfold Query.runPipeline
  rcases run : (p.source.elim (pure []) (query.source cfg e.kept)) e.state with ⟨result, s⟩
  rw [run] at outcome
  cases result with
  | ok input => exact outcome
  | error thrown => exact outcome

lemma afterQueries_arranged (cfg : Config) (queries : List Query) :
    Left [] [] (afterQueries cfg queries) := by
  suffices H : ∀ s, Left [] [] s → Left [] [] (queries.foldl (fun s query =>
      resetBuffer (query.execution cfg query.scheduled (query.start s)).2.state) s) from
    H initial ⟨[], holds_initial⟩
  induction queries with
  | nil => exact fun s h => h
  | cons query queries ih =>
    rintro s ⟨filled, holds⟩
    apply ih
    have loop := Triple.each (l := query.scheduled) (f := query.runPipeline cfg)
      (I := fun _ e => Left [] [] e.state) (E := fun e => Left [] [] e.state)
      fun _ p _ _ => runPipeline_arranged cfg query p
    have outcome := loop (query.start s) ⟨filled, holds.congr rfl rfl rfl rfl⟩
    change Left [] [] (resetBuffer (Proc.each (query.runPipeline cfg) query.scheduled
      (query.start s)).2.state)
    rcases run : Proc.each (query.runPipeline cfg) query.scheduled (query.start s) with
      ⟨result, e⟩
    rw [run] at outcome
    have arranged : Left [] [] e.state := by
      cases result with
      | ok _ => exact outcome
      | error _ => exact outcome
    exact resetBuffer_left arranged

lemma run_tidy {earlier later : List Pipeline} (tidy : Tidy e)
    (careful : Careful cfg query e (earlier ++ p :: later))
    (ran : query.execution cfg earlier e = (.ok (), e')) :
    Tidy e' ∧ (EvictsIn cfg query e' p → ∀ buffer, ¬ Live e' buffer) := by
  induction earlier generalizing e with
  | nil =>
    cases ran
    exact ⟨tidy, careful.1⟩
  | cons first earlier ih =>
    rcases step : query.runPipeline cfg first e with ⟨result, middle⟩
    cases result with
    | error thrown =>
      have stopped : query.execution cfg (first :: earlier) e = (.error thrown, middle) :=
        Proc.bind_error step
      rw [stopped] at ran
      cases ran
    | ok _ =>
      have rest : query.execution cfg (first :: earlier) e =
          query.execution cfg earlier middle := Proc.bind_ok step
      rw [rest] at ran
      have next := (runPipeline_spares tidy careful.1).2 middle step
      exact ih next (careful.2 middle step) ran

/-- After any queries, in a query whose scans do not empty the cache under what it keeps, every
pipeline spares what is kept. -/
theorem run_spares (cfg : Config) (queries : List Query) (query : Query)
    (careful : Careful cfg query (query.start (afterQueries cfg queries)) query.scheduled)
    (earlier later : List Pipeline) (p : Pipeline)
    (split : query.scheduled = earlier ++ p :: later) (e : Execution)
    (ran : query.execution cfg earlier (query.start (afterQueries cfg queries)) = (.ok (), e)) :
    Spares e (query.runPipeline cfg p e).2.state := by
  rw [split] at careful
  obtain ⟨filled, holds⟩ := afterQueries_arranged cfg queries
  have start : Tidy (query.start (afterQueries cfg queries)) :=
    ⟨filled, holds.congr rfl rfl rfl rfl, fun _ => from_nil⟩
  obtain ⟨tidy, last⟩ := run_tidy start careful ran
  exact (runPipeline_spares tidy last).1

end Runs

section Witness

open CacheRuns

def secondRow : Table where
  name := ['u']
  columns := [⟨['b'], .integer, [⟨true, [2, 0, 0, 0]⟩]⟩]
  rowCount := 1
  lengths := by decide
  widths := by decide
  named := by decide
  distinct := by decide

def readSecond : Scan where
  table := secondRow
  columnIds := [⟨0, by decide⟩]
  projectionIds := []
  filterColumns := []
  filterPrune := true
  chunks := [1]
  unsetSize := 0

def twoTables : Catalog := fun name =>
  if name = ['T'] then some oneRow else if name = ['U'] then some secondRow else none

def scanFirst : Pipeline :=
  ⟨0, some ⟨1, .scan .tableScan⟩, [], some ⟨3, .join (.hashJoin .inner)⟩, []⟩

def probe : Pipeline :=
  ⟨1, some ⟨2, .scan .tableScan⟩, [⟨3, .join (.hashJoin .inner)⟩], some ⟨4, .resultCollector⟩, [0]⟩

/-- The join of two tables: the build side is scanned first, then the side that probes. -/
def joinQuery : Query where
  catalog := twoTables
  credit := none
  scan := fun op => if op = 1 then readAll else readSecond
  selected := fun _ => none
  origins := fun _ => [.input 0 (some [0]), .kept 0 (some [0])]
  collection := id
  scheduled := [scanFirst, probe]

/-- Each table fits into the cache, but not both. -/
def tight : Config := ⟨570, 570, 10000, by decide⟩

/-- What the join keeps of its build side. -/
def built (cfg : Config) : Execution :=
  (joinQuery.execution cfg [scanFirst] (joinQuery.start (afterQueries cfg []))).2

lemma built_ok {cfg : Config} (returns : thrown (joinQuery.execution cfg [scanFirst]
    (joinQuery.start (afterQueries cfg []))).1 = false) :
    joinQuery.execution cfg [scanFirst] (joinQuery.start (afterQueries cfg [])) =
      (.ok (), built cfg) := ok_of_not_thrown returns

/-- The scan of the side that probes overwrites the data of the build side. -/
theorem not_every_run_spares :
    ¬ ∀ (cfg : Config) (queries : List Query) (query : Query) (earlier later : List Pipeline)
      (p : Pipeline), query.scheduled = earlier ++ p :: later → ∀ e,
      query.execution cfg earlier (query.start (afterQueries cfg queries)) = (.ok (), e) →
      Spares e (query.runPipeline cfg p e).2.state := by
  intro all
  have ran : joinQuery.execution tight [scanFirst] (joinQuery.start (afterQueries tight [])) =
      (.ok (), built tight) := built_ok (by decide +kernel)
  obtain ⟨_, contents⟩ := all tight [] joinQuery [scanFirst] [] probe rfl (built tight) ran
  have refers : (⟨.gpuCache, 0, 256⟩ : Buffer) ∈ ((built tight).kept 3).flatMap references := by
    decide +kernel
  obtain ⟨column, hcolumn, hbuffer⟩ := List.mem_flatMap.mp refers
  obtain ⟨_, same⟩ := contents _ ⟨3, column, hcolumn, hbuffer⟩
  have before : read (built tight).state.memory ⟨.gpuCache, 0, 256⟩ =
      some (.bytes [1, 0, 0, 0]) := by decide +kernel
  have after : read (joinQuery.runPipeline tight probe (built tight)).2.state.memory
      ⟨.gpuCache, 0, 256⟩ = some (.bytes [2, 0, 0, 0]) := by decide +kernel
  rw [before, after] at same
  exact absurd same (by decide)

def roomy : Config := ⟨2000, 2000, 10000, by decide⟩

/-- With room for both tables the join keeps its build side. -/
theorem roomyJoin_spares :
    Spares (built roomy) (joinQuery.runPipeline roomy probe (built roomy)).2.state := by
  refine run_spares roomy [] joinQuery ?_ [scanFirst] [] probe rfl (built roomy) ?_
  · refine ⟨?_, ?_⟩
    · rintro _ buffer ⟨op, column, none, _⟩
      cases none
    · intro e ran
      refine ⟨?_, fun _ _ => trivial⟩
      rintro ⟨op, source, _, evicts⟩
      obtain rfl := Option.some.inj source
      have stays : ¬ Evicts roomy readSecond (joinQuery.runPipeline roomy scanFirst
          (joinQuery.start (afterQueries roomy []))).2.state := by decide +kernel
      rw [ran] at stays
      exact absurd evicts stays
  · exact built_ok (by decide +kernel)

end Witness

end EvictionSafety
