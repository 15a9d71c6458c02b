import SiriusGpu.CacheRuns

/-!
# The cache and a changing database

Statements change tables of any schema, and nothing tells the buffer manager. Its
table map knows tables by their names alone and loads columns from the catalog of
the default schema. A scan of a table of that schema gives the current rows if the
table has not changed since those of its columns that are cached were loaded.
-/

namespace CacheCoherence

open ThrowingState BufferArena BufferManager TableScan CacheLayout CacheTruth

section Model

/-- The tables of every schema, under their upper-cased names. -/
abbrev Database := Name → Catalog

def defaultSchema : Name := ['m', 'a', 'i', 'n']

/-- `seen` is the history of the run: the tables of the default schema as they were when their
cached columns were loaded. -/
structure Session where
  database : Database
  seen : Catalog
  state : State

/-- `table` is what a statement makes of a table. -/
inductive Step
  | change (schema name : Name) (table : Option Table)
  | scan (schema : Name) (scan : Scan) (selected : Option (List Nat))
  | endQuery

def anyCached (tables : Tables) (upTableName : Name) : Bool :=
  match tables upTableName with
  | none => false
  | some slots => slots.any (·.name ≠ [])

def Session.change (session : Session) (schema name : Name) (table : Option Table) : Session :=
  { session with
    database := Function.update session.database schema
      (Function.update (session.database schema) (toUpper name) table)
    seen :=
      if schema = defaultSchema ∧ anyCached session.state.tables (toUpper name) = false then
        Function.update session.seen (toUpper name) table
      else session.seen }

variable (cfg : Config)

/-- A scan is of a table as it is, and here it does not throw. -/
def Session.scan (session : Session) (schema : Name) (scan : Scan)
    (selected : Option (List Nat)) : Option (GPUIntermediateRelation × Session) :=
  if session.database schema (toUpper scan.table.name) = some scan.table then
    match (getDataDuckDB cfg (session.database defaultSchema) scan >>= fun _ =>
      getData scan selected) session.state with
    | (.ok output, s') => some (output, { session with
        seen := if Evicts cfg scan session.state then session.database defaultSchema
          else session.seen
        state := s' })
    | (.error _, _) => none
  else none

def step (session : Session) : Step → Option Session
  | .change schema name table => some (session.change schema name table)
  | .scan schema scan selected => (session.scan cfg schema scan selected).map Prod.snd
  | .endQuery => some { session with state := resetBuffer session.state }

def run (steps : List Step) (session : Session) : Option Session := steps.foldlM (step cfg) session

def start (database : Database) : Session := ⟨database, database defaultSchema, initial⟩

/-- The scan is of the default schema, and the table has not changed since those of its columns
that stay cached were loaded. -/
def Session.Fresh (session : Session) : Step → Prop
  | .scan schema scan _ => schema = defaultSchema ∧
      (session.seen (toUpper scan.table.name) = some scan.table ∨
        Evicts cfg scan session.state)
  | _ => True

/-- No step scans another schema's table, or cached columns of an earlier version. -/
def FreshRun (session : Session) : List Step → Prop
  | [] => True
  | next :: later => session.Fresh cfg next ∧
      ∀ after, step cfg session next = some after → FreshRun after later

end Model

section Runs

variable {cfg : Config} {session session' : Session}

/-- The rows of the tables as they were seen are what the cache holds. -/
def Faithful (session : Session) : Prop := Sound session.seen session.state

lemma Truthful.changed {catalog : Catalog} {filled : List (Buffer × Content)} {tables : Tables}
    (h : Truthful catalog filled [] [] tables) {upTableName : Name}
    (uncached : anyCached tables upTableName = false) (table : Option Table) :
    Truthful (Function.update catalog upTableName table) filled [] [] tables := by
  intro name slots present i slot hslot named
  have different : name ≠ upTableName := by
    rintro rfl
    simp only [anyCached, present, List.any_eq_false, decide_eq_true_eq, not_not] at uncached
    exact named (uncached slot (List.mem_of_getElem? hslot))
  rw [Function.update_of_ne different]
  exact h name slots present i slot hslot named

theorem change_faithful (h : Faithful session) (schema name : Name) (table : Option Table) :
    Faithful (session.change schema name table) := by
  obtain ⟨filled, holds, truth⟩ := h
  unfold Faithful Session.change
  by_cases own : schema = defaultSchema ∧
      anyCached session.state.tables (toUpper name) = false
  · simp only [own, and_self, if_true]
    exact ⟨filled, holds, Truthful.changed truth own.2 table⟩
  · simp only [own, if_false]
    exact ⟨filled, holds, truth⟩

/-- A scan asks the catalog for its own table only. -/
lemma getDataDuckDB_congr {catalog catalog' : Catalog} {scan : Scan}
    (same : catalog (toUpper scan.table.name) = catalog' (toUpper scan.table.name)) :
    getDataDuckDB cfg catalog scan = getDataDuckDB cfg catalog' scan := by
  have columns : ∀ c : TableColumn,
      createTableAndColumnInGPU catalog scan.table.name c.name =
        createTableAndColumnInGPU catalog' scan.table.name c.name := by
    intro c
    simp only [createTableAndColumnInGPU, same]
  simp only [getDataDuckDB, createColumns, columns]

/-- The load of a fresh scan leaves the cache with the rows that are seen from then on. -/
lemma load_faithful {scan : Scan} {t : State} (h : Faithful session)
    (current : Current (session.database defaultSchema) scan)
    (fresh : session.seen (toUpper scan.table.name) = some scan.table ∨
      Evicts cfg scan session.state)
    (loaded : getDataDuckDB cfg (session.database defaultSchema) scan session.state =
      (.ok (), t)) :
    ∃ seen, seen = (if Evicts cfg scan session.state then session.database defaultSchema
      else session.seen) ∧ Current seen scan ∧ Sound seen t := by
  refine ⟨_, rfl, ?_⟩
  by_cases evicts : Evicts cfg scan session.state
  · rw [if_pos evicts]
    refine ⟨current, ?_⟩
    rcases makeRoom_cases cfg scan session.state with ⟨stays, _⟩ | ⟨stays, _⟩ | ⟨_, credit, room⟩
    · exact absurd evicts stays
    · exact absurd evicts stays
    · rw [getDataDuckDB_ok room] at loaded
      exact loadColumns_sound current (fun _ => scan_columns_mem) (emptied_sound _ _ _) loaded
  · rw [if_neg evicts]
    have seen : Current session.seen scan := fresh.resolve_right evicts
    rw [getDataDuckDB_congr (current.trans seen.symm)] at loaded
    exact ⟨seen, getDataDuckDB_sound seen h loaded⟩

lemma scan_current {schema : Name} {scan : Scan} {selected : Option (List Nat)}
    {result : GPUIntermediateRelation × Session}
    (done : session.scan cfg schema scan selected = some result) :
    session.database schema (toUpper scan.table.name) = some scan.table := by
  unfold Session.scan at done
  by_contra other
  rw [if_neg other] at done
  cases done

theorem scan_delivers {schema : Name} {scan : Scan} {selected : Option (List Nat)}
    {output : GPUIntermediateRelation} (h : Faithful session)
    (fresh : session.Fresh cfg (.scan schema scan selected))
    (done : session.scan cfg schema scan selected = some (output, session')) :
    Faithful session' ∧ Delivers scan selected session'.state.memory output := by
  obtain ⟨rfl, fresh⟩ := fresh
  have current := scan_current done
  unfold Session.scan at done
  rw [if_pos current] at done
  rcases loaded : getDataDuckDB cfg (session.database defaultSchema) scan session.state with
    ⟨result, t⟩
  cases result with
  | error e =>
    rw [Proc.bind_error loaded] at done
    cases done
  | ok _ =>
    rw [Proc.bind_ok loaded] at done
    obtain ⟨seen, hseen, own, sound⟩ := load_faithful h current fresh loaded
    rcases getData_cases sound own selected with
      ⟨output', t', read, after, delivers⟩ | ⟨e, read⟩
    · simp only [read, ← hseen, Option.some.injEq, Prod.mk.injEq] at done
      obtain ⟨rfl, rfl⟩ := done
      exact ⟨after, delivers⟩
    · simp only [read] at done
      cases done

theorem step_faithful {next : Step} (h : Faithful session) (fresh : session.Fresh cfg next)
    (done : step cfg session next = some session') : Faithful session' := by
  cases next with
  | change schema name table =>
    obtain rfl := Option.some.inj done
    exact change_faithful h schema name table
  | scan schema scan selected =>
    obtain ⟨⟨output, after⟩, scanned, rfl⟩ := Option.map_eq_some_iff.mp done
    exact (scan_delivers h fresh scanned).1
  | endQuery =>
    obtain rfl := Option.some.inj done
    exact resetBuffer_sound h

theorem run_faithful {steps : List Step} (h : Faithful session)
    (fresh : FreshRun cfg session steps) (done : run cfg steps session = some session') :
    Faithful session' := by
  induction steps generalizing session with
  | nil =>
    obtain rfl := Option.some.inj done
    exact h
  | cons next steps ih =>
    obtain ⟨middle, first, rest⟩ := Option.bind_eq_some_iff.mp done
    exact ih (step_faithful h fresh.1 first) (fresh.2 middle first) rest

/-- In every run of fresh steps, a fresh scan delivers the current rows of its table. -/
theorem run_coherent (cfg : Config) (database : Database) (steps : List Step)
    (fresh : FreshRun cfg (start database) steps)
    (done : run cfg steps (start database) = some session) (schema : Name) (scan : Scan)
    (selected : Option (List Nat)) (last : session.Fresh cfg (.scan schema scan selected))
    (output : GPUIntermediateRelation)
    (scanned : session.scan cfg schema scan selected = some (output, session')) :
    session.database schema (toUpper scan.table.name) = some scan.table ∧
      Delivers scan selected session'.state.memory output := by
  have first : Faithful (start database) := sound_initial _
  have faithful := run_faithful first fresh done
  exact ⟨scan_current scanned, (scan_delivers faithful last scanned).2⟩

/-- Every scan after the steps delivers the current rows. -/
def Coherent (cfg : Config) (database : Database) (steps : List Step) : Prop :=
  ∀ session session' schema scan selected output,
    run cfg steps (start database) = some session →
    session.scan cfg schema scan selected = some (output, session') →
    Delivers scan selected session'.state.memory output

/-- The rows a scan after the steps gives. -/
def rowsAfter (cfg : Config) (database : Database) (steps : List Step) (schema : Name)
    (scan : Scan) : Option (List (Option (List (Option (List UInt8))))) := do
  let session ← run cfg steps (start database)
  let (output, session') ← session.scan cfg schema scan none
  some (output.map (readColumn session'.state.memory))

lemma Delivers.rows {scan : Scan} {selected : Option (List Nat)}
    {memory : Memory Region Content} {output : GPUIntermediateRelation}
    (h : Delivers scan selected memory output) :
    output.map (readColumn memory) =
      scan.outputIds.map fun id => some (scan.table.columns.get id).values := by
  unfold Delivers at h
  generalize scan.outputIds = ids at h ⊢
  induction h with
  | nil => rfl
  | cons first _ ih => rw [List.map_cons, List.map_cons, first.2.2, ih]

lemma rowsAfter_some {database : Database} {steps : List Step} {schema : Name} {scan : Scan}
    {rows : List (Option (List (Option (List UInt8))))}
    (given : rowsAfter cfg database steps schema scan = some rows) :
    ∃ session output session', run cfg steps (start database) = some session ∧
      session.scan cfg schema scan none = some (output, session') ∧
      output.map (readColumn session'.state.memory) = rows := by
  obtain ⟨session, ran, rest⟩ := Option.bind_eq_some_iff.mp given
  obtain ⟨⟨output, session'⟩, scanned, rest⟩ := Option.bind_eq_some_iff.mp rest
  exact ⟨session, output, session', ran, scanned, Option.some.inj rest⟩

lemma Coherent.rows {database : Database} {steps : List Step} {schema : Name} {scan : Scan}
    {rows : List (Option (List (Option (List UInt8))))} (h : Coherent cfg database steps)
    (given : rowsAfter cfg database steps schema scan = some rows) :
    rows = scan.outputIds.map fun id => some (scan.table.columns.get id).values := by
  obtain ⟨session, output, session', ran, scanned, rfl⟩ := rowsAfter_some given
  exact Delivers.rows (h session session' schema scan none output ran scanned)

end Runs

section Witness

open CacheRuns

def otherRow : Table where
  name := ['t']
  columns := [⟨['a'], .integer, [⟨true, [2, 0, 0, 0]⟩]⟩]
  rowCount := 1
  lengths := by decide
  widths := by decide
  named := by decide
  distinct := by decide

def readOther : Scan where
  table := otherRow
  columnIds := [⟨0, by decide⟩]
  projectionIds := []
  filterColumns := []
  filterPrune := true
  chunks := [1]
  unsetSize := 0

def twoSchemas : Database := fun schema name =>
  if name ≠ ['T'] then none
  else if schema = defaultSchema then some oneRow
  else if schema = ['o'] then some otherRow
  else none

def otherSchemaChanged : List Step :=
  [.scan defaultSchema readAll none, .change ['o'] ['t'] none]

/-- A cached table stays coherent while one of the same name in another schema is dropped. -/
theorem otherSchemaChanged_coherent : ∃ (session session' : Session) (output : _),
    run wide otherSchemaChanged (start twoSchemas) = some session ∧
    session.database defaultSchema ['T'] = some oneRow ∧
    Delivers readAll none session'.state.memory output := by
  have rows : rowsAfter wide twoSchemas otherSchemaChanged defaultSchema readAll =
      some [some [some [1, 0, 0, 0]]] := by decide +kernel
  obtain ⟨session, output, session', ran, scanned, _⟩ := rowsAfter_some rows
  have seen : (run wide otherSchemaChanged (start twoSchemas)).map (·.seen ['T']) =
      some (some oneRow) := by decide +kernel
  rw [ran] at seen
  have fresh : FreshRun wide (start twoSchemas) otherSchemaChanged := by
    refine ⟨⟨rfl, .inl (by decide)⟩, ?_⟩
    intro _ _
    exact ⟨trivial, fun _ _ => trivial⟩
  obtain ⟨current, delivers⟩ := run_coherent wide twoSchemas otherSchemaChanged fresh ran
    defaultSchema readAll none ⟨rfl, .inl (Option.some.inj seen)⟩ output scanned
  exact ⟨session, session', output, ran, current, delivers⟩

/-- A table changes after it has been cached, or one of another schema has its name. -/
theorem not_every_run_coherent :
    ¬ Coherent wide twoSchemas
      [.scan defaultSchema readAll none, .change defaultSchema ['t'] (some otherRow)] ∧
    ¬ Coherent wide twoSchemas [.scan defaultSchema readAll none] := by
  constructor
  · intro coherent
    have stale : rowsAfter wide twoSchemas
        [.scan defaultSchema readAll none, .change defaultSchema ['t'] (some otherRow)]
        defaultSchema readOther = some [some [some [1, 0, 0, 0]]] := by decide +kernel
    exact absurd (coherent.rows stale) (by decide)
  · intro coherent
    have mixed : rowsAfter wide twoSchemas [.scan defaultSchema readAll none] ['o'] readOther =
        some [some [some [1, 0, 0, 0]]] := by decide +kernel
    exact absurd (coherent.rows mixed) (by decide)

end Witness

end CacheCoherence
