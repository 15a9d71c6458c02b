import SiriusGpu.CacheTruth

/-!
# Runs of scans

A run is any sequence of scans and ends of queries. A scan that throws ends its
query, which resets the buffers and keeps the table map. As long as no scan throws
between the registration of its columns and the end of their load, the table map
tells the truth after every step.
-/

namespace CacheRuns

open ThrowingState BufferArena BufferManager TableScan CacheLayout CacheTruth

section Model

/-- A scan of a table of the catalog, and how many steps outside this code will succeed. -/
structure Request (catalog : Catalog) where
  scan : Scan
  selected : Option (List Nat)
  credit : Option Nat
  current : Current catalog scan

inductive Step (catalog : Catalog)
  | scan (request : Request catalog)
  | endQuery

variable (cfg : Config) {catalog : Catalog}

def Request.state (request : Request catalog) (s : State) : State :=
  { s with credit := request.credit }

def Request.execute (request : Request catalog) : Action GPUIntermediateRelation := do
  getDataDuckDB cfg catalog request.scan
  getData request.scan request.selected

/-- An error ends the query. -/
def step (s : State) : Step catalog → State
  | .scan request =>
    match request.execute cfg (request.state s) with
    | (.ok _, s') => s'
    | (.error _, s') => resetBuffer s'
  | .endQuery => resetBuffer s

def run (steps : List (Step catalog)) (s : State) : State := steps.foldl (step cfg) s

def registeredColumn (tables : Tables) (tableName columnName : Name) : Option GPUColumn := do
  let slots ← tables (toUpper tableName)
  let slot ← slots.find? (·.name = toUpper columnName)
  slot.column

/-- Whatever counts as cached is the whole column of the table. -/
def Truthful (catalog : Catalog) (s : State) : Prop :=
  ∀ table c, catalog (toUpper table.name) = some table → c ∈ table.columns →
    checkIfColumnCached s.tables table.name c.name = true →
    ∃ column, registeredColumn s.tables table.name c.name = some column ∧
      column.columnLength = table.rowCount ∧ column.rowIds = none ∧
      readColumn s.memory column = some c.values

/-- The scan throws after it has registered a column. -/
def Interrupted (s : State) : Step catalog → Prop
  | .scan request =>
    (registerFirst cfg catalog request.scan (request.state s)).1 = .ok () ∧
      ∃ e, (getDataDuckDB cfg catalog request.scan (request.state s)).1 = .error e
  | .endQuery => False

/-- No scan of the run is interrupted between registering and loading its columns. -/
def Uninterrupted (s : State) : List (Step catalog) → Prop
  | [] => True
  | next :: later => ¬ Interrupted cfg s next ∧ Uninterrupted (step cfg s next) later

end Model

section Runs

variable {cfg : Config} {catalog : Catalog} {s s' : State}

theorem step_sound {next : Step catalog} (h : Sound catalog s)
    (whole : ¬ Interrupted cfg s next) : Sound catalog (step cfg s next) := by
  cases next with
  | endQuery => exact resetBuffer_sound h
  | scan request =>
    have start : Sound catalog (request.state s) := h.congr rfl rfl rfl rfl
    rcases loaded : getDataDuckDB cfg catalog request.scan (request.state s) with ⟨result, t⟩
    cases result with
    | ok _ =>
      have sound := getDataDuckDB_sound request.current start loaded
      have execute : request.execute cfg (request.state s) =
          getData request.scan request.selected t := Proc.bind_ok loaded
      rcases getData_cases sound request.current request.selected with
        ⟨output, t', read, after, _⟩ | ⟨e, read⟩
      · simp only [step, execute, read]
        exact after
      · simp only [step, execute, read]
        exact resetBuffer_sound sound
    | error e =>
      have execute : request.execute cfg (request.state s) = (.error e, t) :=
        Proc.bind_error loaded
      simp only [step, execute]
      rcases first : registerFirst cfg catalog request.scan (request.state s) with ⟨result, t'⟩
      cases result with
      | ok _ => exact absurd ⟨by rw [first], e, by rw [loaded]⟩ whole
      | error e' =>
        obtain ⟨same, sound⟩ := registerFirst_error start first
        rw [loaded] at same
        obtain rfl := congrArg Prod.snd same
        exact resetBuffer_sound sound

theorem run_sound {steps earlier : List (Step catalog)} (h : Sound catalog s)
    (whole : Uninterrupted cfg s steps) (reached : earlier <+: steps) :
    Sound catalog (run cfg earlier s) := by
  induction steps generalizing s earlier with
  | nil =>
    obtain rfl := List.prefix_nil.mp reached
    exact h
  | cons next steps ih =>
    obtain ⟨first, rest⟩ := whole
    rcases List.prefix_cons_iff.mp reached with rfl | ⟨later, rfl, hlater⟩
    · exact h
    · have next_sound := step_sound h first
      have later_sound := ih next_sound rest hlater
      exact later_sound

theorem Sound.truthful (h : Sound catalog s) : Truthful catalog s := by
  intro table c entry hc cached
  obtain ⟨slots, present, named⟩ := checkIfColumnCached_iff.mp cached
  obtain ⟨filled, holds, truth⟩ := h
  obtain ⟨slot, found⟩ := Option.isSome_iff_exists.mp
    ((List.find?_isSome).mpr (by simpa using named) : (slots.find?
      (·.name = toUpper c.name)).isSome = true)
  obtain ⟨i, hi⟩ := List.mem_iff_getElem?.mp hc
  have name : slot.name = toUpper c.name := by simpa using List.find?_some found
  obtain ⟨_, full⟩ :=
    truth.full_of_named entry present hi (List.mem_of_find?_eq_some found) name
  obtain ⟨column, hcolumn, rest⟩ := full.read hc holds
  refine ⟨column, ?_, rest⟩
  simp only [registeredColumn, present, found, hcolumn, Option.bind_eq_bind, Option.bind_some]

end Runs

section Witness

def oneRow : Table where
  name := ['t']
  columns := [⟨['a'], .integer, [⟨true, [1, 0, 0, 0]⟩]⟩]
  rowCount := 1
  lengths := by decide
  widths := by decide
  named := by decide
  distinct := by decide

def oneTable : Catalog := fun name => if name = ['T'] then some oneRow else none

def readAll : Scan where
  table := oneRow
  columnIds := [⟨0, by decide⟩]
  projectionIds := []
  filterColumns := []
  filterPrune := true
  chunks := [1]
  unsetSize := 0

def request (credit : Option Nat) : Request oneTable := ⟨readAll, none, credit, rfl⟩

/-- The data and its mask fit into the cache, but not both once they are padded. -/
def narrow : Config := ⟨300, 300, 10000, by decide⟩

def wide : Config := ⟨1000, 1000, 10000, by decide⟩

def thrown {α : Type} (result : Except Exception α) : Bool := result.toOption.isNone

lemma ok_of_not_thrown {σ : Type} {x : Except Exception Unit × σ} (h : thrown x.1 = false) :
    x = (.ok (), x.2) := by
  obtain ⟨result, s⟩ := x
  cases result with
  | ok _ => rfl
  | error _ => cases h

end Witness

end CacheRuns
