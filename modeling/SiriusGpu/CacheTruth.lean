import SiriusGpu.CacheLayout
import SiriusGpu.FallibleMaps

/-!
# What the table map says is cached

A slot of a cached table that has a name holds the whole of the column of that
name, or waits for the load that has registered it. A load that runs to its end
leaves no slot waiting. One that throws in between leaves its columns registered
and empty, and every later scan takes them for cached.
-/

namespace CacheTruth

open ThrowingState BufferArena ColumnFormat BufferManager TableScan CacheLayout
open FallibleMaps (mapM_some)

section Decode

/-- Where the values of a column start. -/
def starts (memory : Memory Region Content) (type : GPUColumnType) (offset : Option Buffer) :
    Option (Nat → Nat) :=
  if type = .varchar then
    match offset.bind (read memory) with
    | some (.words words) => some (words.getD · 0)
    | _ => none
  else some (· * getColumnTypeSize type)

/-- The values of a column, as its buffers have them. -/
def readColumn (memory : Memory Region Content) (column : GPUColumn) :
    Option (List (Option (List UInt8))) :=
  match column.data.bind (read memory), column.validityMask.bind (read memory),
      starts memory column.type column.offset with
  | some (.bytes data), some (.bits mask), some start =>
    some ((List.range column.columnLength).map (cell data start mask))
  | _, _, _ => none

lemma convert_varchar {type : LogicalType} {gpuType : GPUColumnType}
    (h : convertLogicalTypeToColumnType type = some gpuType) :
    gpuType = .varchar ↔ type = .varchar := by
  cases type <;> simp_all [convertLogicalTypeToColumnType] <;> subst h <;> simp

lemma slots_length (c : TableColumn) : c.slots.length = c.cells.length := List.length_map _

/-- Cutting the copied bytes gives the values back, if the starts are right. -/
lemma map_cell {c : TableColumn} {start : Nat → Nat}
    (right : ∀ i ≤ c.slots.length, start i = (c.slots.take i).flatten.length) :
    (List.range c.cells.length).map (cell c.slots.flatten start (c.cells.map Cell.valid)) =
      c.values := by
  apply List.ext_getElem
  · simp [TableColumn.values]
  intro i hi _
  have inside : i < c.cells.length := by simpa using hi
  have inSlots : i < c.slots.length := by rwa [slots_length]
  rw [List.getElem_map, List.getElem_range, cell_flatten _ _ right inSlots]
  simp only [TableColumn.values, List.getElem_map, Cell.value, TableColumn.slots, slot,
    List.getD_eq_getElem?_getD, List.getElem?_map, List.getElem?_eq_getElem inside,
    Option.map_some, Option.getD_some]
  by_cases valid : c.cells[i].valid = true
  · simp [valid]
  · simp [valid]

lemma fixed_starts {table : Table} {c : TableColumn} (hc : c ∈ table.columns)
    (fixed : c.type ≠ .varchar) {i : Nat} (hi : i ≤ c.slots.length) :
    i * typeIdSize c.type = (c.slots.take i).flatten.length := by
  symm
  apply take_flatten_length c.slots _ hi
  intro piece hpiece
  obtain ⟨cell, hcell, rfl⟩ := List.mem_map.mp hpiece
  simp only [slot, fixed, false_and, if_false]
  exact table.widths c hc fixed cell hcell

/-- The starts of a loaded column are those of the copied bytes. -/
lemma starts_loaded {table : Table} {c : TableColumn} (hc : c ∈ table.columns)
    {type : GPUColumnType} (htype : convertLogicalTypeToColumnType c.type = some type)
    {b : ColumnBuffers} (fit : BuffersFor c b) {memory : Memory Region Content}
    (content : ∀ entry ∈ contentsOf (c, b), read memory entry.1 = some entry.2) :
    ∃ start, starts memory type b.offset = some start ∧
      ∀ i ≤ c.slots.length, start i = (c.slots.take i).flatten.length := by
  unfold starts
  by_cases string : c.type = .varchar
  · obtain ⟨offset, hoffset⟩ := Option.isSome_iff_exists.mp (fit.mpr string)
    have words : read memory offset = some (offsetContent c) :=
      content (offset, offsetContent c) (by simp [contentsOf, hoffset])
    rw [if_pos ((convert_varchar htype).mpr string), hoffset, Option.bind_some, words]
    refine ⟨_, rfl, ?_⟩
    intro i hi
    rw [offsets_get 0 c.slots hi, Nat.zero_add]
  · rw [if_neg (fun h => string ((convert_varchar htype).mp h))]
    refine ⟨_, rfl, ?_⟩
    intro i hi
    rw [getColumnTypeSize_convert htype string]
    exact fixed_starts hc string hi

theorem readColumn_loaded {table : Table} {c : TableColumn} (hc : c ∈ table.columns)
    {type : GPUColumnType} (htype : convertLogicalTypeToColumnType c.type = some type)
    {b : ColumnBuffers} (fit : BuffersFor c b) {memory : Memory Region Content}
    (content : ∀ entry ∈ contentsOf (c, b), read memory entry.1 = some entry.2) :
    readColumn memory (loadedColumn table.rowCount type b) = some c.values := by
  have data : read memory b.data = some (dataContent c) :=
    content (b.data, dataContent c) (by simp [contentsOf])
  have mask : read memory b.mask = some (maskContent c) :=
    content (b.mask, maskContent c) (by simp [contentsOf])
  obtain ⟨start, hstart, right⟩ := starts_loaded hc htype fit content
  simp only [readColumn, loadedColumn, Option.bind_some, data, mask, dataContent, maskContent,
    hstart]
  rw [← table.lengths c hc, map_cell right]

end Decode

section Truth

variable {catalog : Catalog} {filled : List (Buffer × Content)} {key : Name}
  {todo : List TableColumn} {tables : Tables}

/-- The slot holds the whole column. -/
def Full (filled : List (Buffer × Content)) (rowCount : Nat) (c : TableColumn) (slot : Slot) :
    Prop :=
  ∃ type b, convertLogicalTypeToColumnType c.type = some type ∧ BuffersFor c b ∧
    (∀ entry ∈ contentsOf (c, b), entry ∈ filled) ∧
    slot.column = some (loadedColumn rowCount type b)

/-- A named slot stands for the column at its place, and is full or one of those of the table
`key` that are still to be loaded. -/
def Truthful (catalog : Catalog) (filled : List (Buffer × Content)) (key : Name)
    (todo : List TableColumn) (tables : Tables) : Prop :=
  ∀ name slots, tables name = some slots → ∀ (i : Nat) slot, slots[i]? = some slot →
    slot.name ≠ [] → ∃ table c, catalog name = some table ∧ table.columns[i]? = some c ∧
      slot.name = toUpper c.name ∧ (Full filled table.rowCount c slot ∨ name = key ∧ c ∈ todo)

lemma toUpper_eq_nil {name : Name} : toUpper name = [] ↔ name = [] := List.map_eq_nil_iff

/-- Columns of a table are told apart by their upper-cased names. -/
lemma column_unique {table : Table} {i j : Nat} {c d : TableColumn}
    (hi : table.columns[i]? = some c) (hj : table.columns[j]? = some d)
    (same : toUpper c.name = toUpper d.name) : i = j := by
  obtain ⟨inside, _⟩ := List.getElem?_eq_some_iff.mp hi
  apply (List.getElem?_inj (by simpa using inside) table.distinct).mp
  simp [hi, hj, same]

theorem truthful_nothing (catalog : Catalog) (filled : List (Buffer × Content)) (key : Name) :
    Truthful catalog filled key [] fun _ => none := by
  intro name slots hslots
  simp at hslots

theorem truthful_clearNames (catalog : Catalog) (tables : Tables) (key : Name) :
    Truthful catalog [] key [] (clearNames tables) := by
  intro name slots hslots i slot hslot named
  obtain ⟨before, _, rfl⟩ := Option.map_eq_some_iff.mp hslots
  rw [List.getElem?_map] at hslot
  obtain ⟨old, _, rfl⟩ := Option.map_eq_some_iff.mp hslot
  exact absurd rfl named

lemma Truthful.mono (h : Truthful catalog filled key todo tables)
    {filled' : List (Buffer × Content)} {key' : Name} {todo' : List TableColumn}
    (more : ∀ entry ∈ filled, entry ∈ filled') (keys : todo = [] ∨ key' = key)
    (later : ∀ c ∈ todo, c ∈ todo') : Truthful catalog filled' key' todo' tables := by
  intro name slots hslots i slot hslot named
  obtain ⟨table, c, hcatalog, hc, hname, full | ⟨rfl, waits⟩⟩ :=
    h name slots hslots i slot hslot named
  · refine ⟨table, c, hcatalog, hc, hname, .inl ?_⟩
    obtain ⟨type, b, htype, fit, inside, column⟩ := full
    exact ⟨type, b, htype, fit, fun entry hentry => more entry (inside entry hentry), column⟩
  · refine ⟨table, c, hcatalog, hc, hname, .inr ?_⟩
    rcases keys with rfl | rfl
    · simp at waits
    · exact ⟨rfl, later c waits⟩

/-- A change of the slots of one table. -/
lemma Truthful.update (h : Truthful catalog filled key todo tables) {slots : List Slot}
    {todo' : List TableColumn}
    (changed : ∀ (i : Nat) slot, slots[i]? = some slot → slot.name ≠ [] →
      ∃ table c, catalog key = some table ∧ table.columns[i]? = some c ∧
        slot.name = toUpper c.name ∧ (Full filled table.rowCount c slot ∨ c ∈ todo')) :
    Truthful catalog filled key todo' (Function.update tables key (some slots)) := by
  intro name slots' hslots' i slot hslot named
  by_cases same : name = key
  · subst same
    rw [Function.update_self] at hslots'
    obtain rfl := Option.some.inj hslots'
    obtain ⟨table, c, hcatalog, hc, hname, state⟩ := changed i slot hslot named
    exact ⟨table, c, hcatalog, hc, hname, state.imp_right fun waits => ⟨rfl, waits⟩⟩
  · rw [Function.update_of_ne same] at hslots'
    obtain ⟨table, c, hcatalog, hc, hname, state⟩ := h name slots' hslots' i slot hslot named
    refine ⟨table, c, hcatalog, hc, hname, ?_⟩
    rcases state with full | ⟨there, _⟩
    · exact .inl full
    · exact absurd there same

lemma Truthful.afterCreate (h : Truthful catalog filled key todo tables) (columnCount : Nat) :
    Truthful catalog filled key todo (created key columnCount tables) := by
  apply h.update
  intro i slot hslot named
  cases present : tables key with
  | none =>
    rw [present, Option.getD_none, List.getElem?_replicate] at hslot
    split_ifs at hslot with inside
    obtain rfl := Option.some.inj hslot
    exact absurd rfl named
  | some slots =>
    rw [present, Option.getD_some] at hslot
    obtain ⟨table, c, hcatalog, hc, hname, state⟩ := h key slots present i slot hslot named
    exact ⟨table, c, hcatalog, hc, hname, state.imp_right And.right⟩

/-- One slot is set; the others stay as they are, but for those that no longer wait. -/
lemma Truthful.setSlot (h : Truthful catalog filled key todo tables) {table : Table}
    (hcatalog : catalog key = some table) {slots : List Slot} (present : tables key = some slots)
    {idx : Nat} {c : TableColumn} (hc : table.columns[idx]? = some c)
    (column : Option GPUColumn) {todo' : List TableColumn}
    (state : Full filled table.rowCount c ⟨toUpper c.name, column⟩ ∨ c ∈ todo')
    (later : ∀ (i : Nat) d, table.columns[i]? = some d → i ≠ idx → d ∈ todo → d ∈ todo') :
    Truthful catalog filled key todo' (Function.update tables key
      (some (slots.set idx ⟨toUpper c.name, column⟩))) := by
  apply h.update
  intro i slot hslot named
  by_cases here : i = idx
  · subst here
    rw [List.getElem?_set_self'] at hslot
    obtain ⟨_, _, rfl⟩ := Option.map_eq_some_iff.mp hslot
    exact ⟨table, c, hcatalog, hc, rfl, state⟩
  · rw [List.getElem?_set_ne (Ne.symm here)] at hslot
    obtain ⟨table', d, hcatalog', hd, hname, full | ⟨_, waits⟩⟩ :=
      h key slots present i slot hslot named
    · exact ⟨table', d, hcatalog', hd, hname, .inl full⟩
    · obtain rfl := Option.some.inj (hcatalog.symm.trans hcatalog')
      exact ⟨table, d, hcatalog, hd, hname, .inr (later i d hd here waits)⟩

end Truth

section Load

variable {catalog : Catalog} {filled : List (Buffer × Content)} {scan : Scan}
  {todo : List TableColumn} {tables tables' : Tables}

/-- The scan is of a table of the catalog. -/
def Current (catalog : Catalog) (scan : Scan) : Prop :=
  catalog (toUpper scan.table.name) = some scan.table

lemma findIdx?_getElem? {α : Type} {p : α → Bool} {l : List α} {i : Nat}
    (h : l.findIdx? p = some i) : ∃ a, l[i]? = some a ∧ p a = true := by
  obtain ⟨inside, holds, _⟩ := List.findIdx?_eq_some_iff_getElem.mp h
  exact ⟨l[i], List.getElem?_eq_getElem inside, holds⟩

theorem Truthful.register (h : Truthful catalog filled (toUpper scan.table.name) todo tables)
    (current : Current catalog scan) {c : TableColumn} (hc : c ∈ scan.table.columns)
    (registered : registerColumn catalog scan.table.name c.name tables = some tables') :
    Truthful catalog filled (toUpper scan.table.name) (c :: todo) tables' := by
  obtain ⟨table, htable, rest⟩ := Option.bind_eq_some_iff.mp registered
  obtain rfl := Option.some.inj (current.symm.trans htable)
  obtain ⟨columnId, hcolumnId, rest⟩ := Option.bind_eq_some_iff.mp rest
  obtain ⟨column, hcolumn, rest⟩ := Option.bind_eq_some_iff.mp rest
  obtain ⟨type, _, rest⟩ := Option.bind_eq_some_iff.mp rest
  obtain ⟨d, hd, named⟩ := findIdx?_getElem? hcolumnId
  obtain rfl := Option.some.inj (hcolumn.symm.trans hd)
  have same : column = c := by
    obtain ⟨j, hj⟩ := List.mem_iff_getElem?.mp hc
    have place : columnId = j := column_unique hcolumn hj (by rw [of_decide_eq_true named])
    rw [place, hj] at hcolumn
    exact (Option.some.inj hcolumn).symm
  subst same
  simp only at rest
  split_ifs at rest with inside
  obtain rfl := Option.some.inj rest
  have set := (h.afterCreate scan.table.columns.length).setSlot current
    (Function.update_self _ _ _) hcolumn
    (some (emptyColumn type)) (.inr (List.mem_cons_self : column ∈ column :: todo))
    fun _ _ _ _ waits => List.mem_cons_of_mem _ waits
  rwa [created, Function.update_idem] at set

theorem Truthful.registerAll
    (h : Truthful catalog filled (toUpper scan.table.name) todo tables)
    (current : Current catalog scan) {columns : List TableColumn}
    (sub : ∀ c ∈ columns, c ∈ scan.table.columns)
    (registered : registerColumns catalog scan columns tables = some tables') :
    Truthful catalog filled (toUpper scan.table.name) (columns ++ todo) tables' := by
  induction columns generalizing todo tables with
  | nil =>
    obtain rfl := Option.some.inj registered
    exact h
  | cons c columns ih =>
    obtain ⟨next, step, rest⟩ := Option.bind_eq_some_iff.mp registered
    have here := h.register current (sub c (by simp)) step
    have later := ih here (fun d hd => sub d (List.mem_cons_of_mem _ hd)) rest
    apply later.mono (fun _ h => h) (.inr rfl)
    intro d hd
    simpa [or_left_comm] using hd

theorem Truthful.publish {c : TableColumn}
    (h : Truthful catalog filled (toUpper scan.table.name) (c :: todo) tables)
    (current : Current catalog scan) (hc : c ∈ scan.table.columns) {b : ColumnBuffers}
    (fit : BuffersFor c b) (inside : ∀ entry ∈ contentsOf (c, b), entry ∈ filled)
    (published : setColumn scan tables (c, b) = some tables') :
    Truthful catalog filled (toUpper scan.table.name) todo tables' := by
  obtain ⟨slots, present, rest⟩ := Option.bind_eq_some_iff.mp published
  obtain ⟨idx, hidx, rest⟩ := Option.bind_eq_some_iff.mp rest
  obtain ⟨type, htype, rest⟩ := Option.bind_eq_some_iff.mp rest
  obtain rfl := Option.some.inj rest
  obtain ⟨slot, hslot, named⟩ := findIdx?_getElem? hidx
  have name : slot.name = toUpper c.name := of_decide_eq_true named
  have nonempty : slot.name ≠ [] := by
    rw [name]
    exact fun empty => scan.table.named c hc (toUpper_eq_nil.mp empty)
  obtain ⟨table, d, hcatalog, hd, hname, _⟩ := h _ slots present idx slot hslot nonempty
  obtain rfl := Option.some.inj (current.symm.trans hcatalog)
  obtain ⟨j, hj⟩ := List.mem_iff_getElem?.mp hc
  obtain rfl : idx = j := column_unique hd hj (hname.symm.trans name)
  apply h.setSlot current present hj _
  · exact .inl ⟨type, b, htype, fit, inside, rfl⟩
  · intro i e he different waits
    rcases List.mem_cons.mp waits with rfl | waits
    · exact absurd (column_unique he hj rfl) different
    · exact waits

theorem Truthful.publishAll {columns : List TableColumn} {buffers : List ColumnBuffers}
    (h : Truthful catalog filled (toUpper scan.table.name) columns tables)
    (current : Current catalog scan) (sub : ∀ c ∈ columns, c ∈ scan.table.columns)
    (fit : List.Forall₂ BuffersFor columns buffers)
    (inside : ∀ entry ∈ (columns.zip buffers).flatMap contentsOf, entry ∈ filled)
    (published : setColumns scan (columns.zip buffers) tables = some tables') :
    Truthful catalog filled (toUpper scan.table.name) [] tables' := by
  induction fit generalizing tables with
  | nil =>
    obtain rfl := Option.some.inj published
    exact h
  | @cons c b columns buffers fits _ ih =>
    obtain ⟨next, step, rest⟩ := Option.bind_eq_some_iff.mp published
    have here := h.publish current (sub c (by simp)) fits
      (fun entry hentry => inside entry (by simp [hentry])) step
    apply ih here (fun d hd => sub d (List.mem_cons_of_mem _ hd)) _ rest
    intro entry hentry
    apply inside
    rw [List.zip_cons_cons, List.flatMap_cons]
    exact List.mem_append_right _ hentry

end Load

section Run

variable {cfg : Config} {catalog : Catalog} {scan : Scan} {s s' : State}

/-- What is cached is the whole of it, and the buffers that hold it are apart. -/
def Sound (catalog : Catalog) (s : State) : Prop :=
  ∃ filled, Holds [] [] filled [] s.tables s ∧ Truthful catalog filled [] [] s.tables

theorem sound_initial (catalog : Catalog) : Sound catalog initial :=
  ⟨[], holds_initial, truthful_nothing catalog [] []⟩

lemma scan_columns_mem {c : TableColumn} (hc : c ∈ scan.columns) : c ∈ scan.table.columns := by
  obtain ⟨id, _, rfl⟩ := List.mem_map.mp hc
  exact List.get_mem _ _

lemma uncached_mem {tables : Tables} {c : TableColumn} (hc : c ∈ scan.uncached tables) :
    c ∈ scan.table.columns := scan_columns_mem (List.mem_of_mem_filter hc)

theorem loadColumns_sound (current : Current catalog scan) {columns : List TableColumn}
    (sub : ∀ c ∈ columns, c ∈ scan.table.columns) (h : Sound catalog s)
    (done : loadColumns cfg catalog scan columns s = (.ok (), s')) : Sound catalog s' := by
  obtain ⟨filled, holds, truth⟩ := h
  unfold loadColumns at done
  split_ifs at done with nothing
  · obtain rfl : s = s' := congrArg Prod.snd done
    exact ⟨filled, holds, truth⟩
  have run := load_holds cfg catalog scan columns s holds
  rw [done] at run
  obtain ⟨buffers, registered, published, fit, hregistered, hpublished, loaded⟩ := run
  have start : Truthful catalog filled (toUpper scan.table.name) [] s.tables :=
    truth.mono (fun _ h => h) (.inl rfl) (fun _ h => h)
  have waiting := start.registerAll current sub hregistered
  rw [List.append_nil] at waiting
  have full := (waiting.mono (fun _ h => List.mem_append_right _ h) (.inr rfl)
    (fun _ h => h)).publishAll current sub fit (fun _ h => List.mem_append_left _ h) hpublished
  obtain rfl := loaded.tables
  exact ⟨_, loaded, full.mono (fun _ h => h) (.inl rfl) (fun _ h => h)⟩

lemma Sound.congr (h : Sound catalog s) (pointers : limit s' = limit s)
    (sameTables : s'.tables = s.tables) (memory : s'.memory = s.memory)
    (history : s'.handedOut = s.handedOut) : Sound catalog s' := by
  obtain ⟨filled, holds, truth⟩ := h
  have after := holds.congr pointers sameTables memory history
  rw [← sameTables] at after truth
  exact ⟨filled, after, truth⟩

theorem emptied_sound (catalog : Catalog) (s : State) (credit : Option Nat) :
    Sound catalog (emptied s credit) :=
  ⟨[], (holds_emptied s credit).forget, truthful_clearNames _ _ _⟩

theorem getDataDuckDB_sound (current : Current catalog scan) (h : Sound catalog s)
    (done : getDataDuckDB cfg catalog scan s = (.ok (), s')) : Sound catalog s' := by
  rcases makeRoom_cases cfg scan s with ⟨_, credit, room⟩ | ⟨_, e, credit, room⟩ |
    ⟨_, credit, room⟩
  · rw [getDataDuckDB_ok room] at done
    have same : Sound catalog { s with credit } := h.congr rfl rfl rfl rfl
    exact loadColumns_sound current (fun _ => uncached_mem) same done
  · rw [getDataDuckDB, Proc.bind_error room] at done
    cases done
  · rw [getDataDuckDB_ok room] at done
    exact loadColumns_sound current (fun _ => scan_columns_mem) (emptied_sound _ _ _) done

/-- A scan up to the first name it registers. -/
def registerFirst (cfg : Config) (catalog : Catalog) (scan : Scan) : Action Unit := do
  let columns ← makeRoom cfg scan
  match columns with
  | [] => pure ()
  | c :: _ => createTableAndColumnInGPU catalog scan.table.name c.name

/-- A scan that throws this early has registered nothing. -/
theorem registerFirst_error {e : Exception} (h : Sound catalog s)
    (thrown : registerFirst cfg catalog scan s = (.error e, s')) :
    getDataDuckDB cfg catalog scan s = (.error e, s') ∧ Sound catalog s' := by
  have register : ∀ {columns : List TableColumn} {t : State},
      makeRoom cfg scan s = (.ok columns, t) → Sound catalog t →
      getDataDuckDB cfg catalog scan s = (.error e, s') ∧ Sound catalog s' := by
    intro columns t room sound
    rw [registerFirst, Proc.bind_ok room] at thrown
    rw [getDataDuckDB_ok room]
    cases columns with
    | nil => cases thrown
    | cons c columns =>
      change createTableAndColumnInGPU catalog scan.table.name c.name t = _ at thrown
      constructor
      · unfold loadColumns
        rw [if_neg (List.cons_ne_nil _ _)]
        unfold createColumns Proc.each
        exact Proc.bind_error (Proc.bind_error thrown)
      · obtain ⟨filled, holds, truth⟩ := sound
        have run := createTableAndColumnInGPU_holds catalog scan.table.name c.name t holds
        rw [thrown] at run
        rcases run with same | ⟨columnCount, made⟩
        · exact ⟨filled, by rwa [same.tables], by rwa [same.tables]⟩
        · refine ⟨filled, by rwa [made.tables], ?_⟩
          rw [made.tables]
          have start : Truthful catalog filled (toUpper scan.table.name) [] t.tables :=
            truth.mono (fun _ h => h) (.inl rfl) (fun _ h => h)
          exact (start.afterCreate columnCount).mono (fun _ h => h) (.inl rfl) (fun _ h => h)
  rcases makeRoom_cases cfg scan s with ⟨_, credit, room⟩ | ⟨_, e', credit, room⟩ |
    ⟨_, credit, room⟩
  · exact register room (h.congr rfl rfl rfl rfl)
  · rw [registerFirst, Proc.bind_error room] at thrown
    rw [getDataDuckDB, Proc.bind_error room]
    cases thrown
    exact ⟨rfl, h.congr rfl rfl rfl rfl⟩
  · exact register room (emptied_sound _ _ _)

end Run

section Read

variable {cfg : Config} {catalog : Catalog} {filled : List (Buffer × Content)} {scan : Scan}
  {tables tables' : Tables} {s s' : State}

lemma Full.reset {rowCount : Nat} {c : TableColumn} {slot : Slot}
    (h : Full filled rowCount c slot) : slot.resetRowIds = slot := by
  obtain ⟨type, b, _, _, _, column⟩ := h
  obtain ⟨name, _⟩ := slot
  simp only at column
  rw [column]
  rfl

lemma Truthful.reset (h : Truthful catalog filled [] [] tables)
    (same : ∀ name slots', tables' name = some slots' →
      ∃ slots, tables name = some slots ∧ SlotsReset slots slots') :
    Truthful catalog filled [] [] tables' := by
  intro name slots' hslots' i slot' hslot' named
  obtain ⟨slots, hslots, resets⟩ := same name slots' hslots'
  obtain ⟨cleared, here⟩ := resets i
  rw [hslot'] at here
  obtain ⟨slot, hslot, rfl⟩ := Option.map_eq_some_iff.mp here.symm
  have sameName : (if cleared then slot.resetRowIds else slot).name = slot.name := by
    cases cleared <;> rfl
  rw [sameName] at named ⊢
  obtain ⟨table, c, hcatalog, hc, hname, full | ⟨_, waits⟩⟩ :=
    h name slots hslots i slot hslot named
  · refine ⟨table, c, hcatalog, hc, hname, .inl ?_⟩
    rwa [full.reset, ite_self]
  · simp at waits

lemma Sound.reset (h : Sound catalog s) (pointers : limit s' = limit s)
    (memory : s'.memory = s.memory) (history : s'.handedOut = s.handedOut)
    (same : ∀ name slots', s'.tables name = some slots' →
      ∃ slots, s.tables name = some slots ∧ SlotsReset slots slots') : Sound catalog s' := by
  obtain ⟨filled, holds, truth⟩ := h
  exact ⟨filled, holds.reset pointers memory history same, truth.reset same⟩

theorem resetBuffer_sound (h : Sound catalog s) : Sound catalog (resetBuffer s) := by
  have pointers : limit (resetBuffer s) = limit s := rfl
  exact h.reset pointers rfl rfl (resetBuffer_reset s)

/-- The relation has all rows of the columns that the scan passes on, seen through the row ids
that the filters have selected. -/
def Delivers (scan : Scan) (selected : Option (List Nat)) (memory : Memory Region Content)
    (output : GPUIntermediateRelation) : Prop :=
  List.Forall₂ (fun id column => column.columnLength = scan.table.rowCount ∧
    column.rowIds = selected ∧
    readColumn memory column = some (scan.table.columns.get id).values) scan.outputIds output

lemma outputIds_mem {id : Fin scan.table.columns.length} (h : id ∈ scan.outputIds) :
    id ∈ scan.columnIds := by
  unfold Scan.outputIds at h
  split_ifs at h
  · obtain ⟨place, _, rfl⟩ := List.mem_map.mp h
    exact List.get_mem _ _
  · exact h

/-- A slot of a column's name is the one at the place of the column, and is full. -/
lemma Truthful.full_of_named (truth : Truthful catalog filled [] [] tables) {key : Name}
    {table : Table} (entry : catalog key = some table) {slots : List Slot}
    (present : tables key = some slots) {i : Nat} {c : TableColumn}
    (hc : table.columns[i]? = some c) {slot : Slot} (hslot : slot ∈ slots)
    (name : slot.name = toUpper c.name) :
    slots[i]? = some slot ∧ Full filled table.rowCount c slot := by
  obtain ⟨j, hj⟩ := List.mem_iff_getElem?.mp hslot
  have nonempty : slot.name ≠ [] := by
    rw [name]
    exact fun empty =>
      table.named _ (List.mem_of_getElem? hc) (toUpper_eq_nil.mp empty)
  obtain ⟨table', d, entry', hd, hname, full | ⟨_, waits⟩⟩ :=
    truth _ slots present j slot hj nonempty
  · obtain rfl := Option.some.inj (entry.symm.trans entry')
    obtain rfl : j = i := column_unique hd hc (hname.symm.trans name)
    obtain rfl := Option.some.inj (hd.symm.trans hc)
    exact ⟨hj, full⟩
  · simp at waits

lemma Full.read {table : Table} {c : TableColumn} {slot : Slot} {known : List (Buffer × Content)}
    {base blank : List Buffer} (h : Full filled table.rowCount c slot) (hc : c ∈ table.columns)
    (holds : Holds known base filled blank tables s) :
    ∃ column, slot.column = some column ∧ column.columnLength = table.rowCount ∧
      column.rowIds = none ∧ readColumn s.memory column = some c.values := by
  obtain ⟨type, b, htype, fit, inside, column⟩ := h
  refine ⟨_, column, rfl, rfl, readColumn_loaded hc htype fit ?_⟩
  intro entry hentry
  exact holds.content entry (List.mem_append_left _ (inside entry hentry))

/-- What a scan gives of columns that the table map says are cached. -/
theorem getData_delivers (h : Sound catalog s) (current : Current catalog scan)
    (selected : Option (List Nat)) {slots : List Slot}
    (present : s.tables (toUpper scan.table.name) = some slots)
    (cached : scan.columns.all (fun c => slots.any (·.name = toUpper c.name)) = true) :
    ∃ output s', getData scan selected s = (.ok output, s') ∧ Sound catalog s' ∧
      Delivers scan selected s'.memory output := by
  obtain ⟨filled, holds, truth⟩ := h
  obtain ⟨slots', resets, run⟩ := getData_eq selected present cached
  have passed : ∀ id ∈ scan.outputIds, ∃ column,
      scannedColumn selected slots' id.val = some column ∧
      column.columnLength = scan.table.rowCount ∧ column.rowIds = selected ∧
      readColumn s.memory column = some (scan.table.columns.get id).values := by
    intro id hid
    have scanned : scan.table.columns.get id ∈ scan.columns :=
      List.mem_map_of_mem (outputIds_mem hid)
    have named := List.all_eq_true.mp cached _ scanned
    simp only [List.any_eq_true, decide_eq_true_eq] at named
    obtain ⟨slot, hslot, name⟩ := named
    have place : scan.table.columns[id.val]? = some (scan.table.columns.get id) :=
      List.getElem?_eq_getElem id.isLt
    obtain ⟨here, full⟩ := truth.full_of_named current present place hslot name
    obtain ⟨cleared, reset⟩ := resets id
    rw [here, Option.map_some, full.reset, ite_self] at reset
    obtain ⟨column, hcolumn, length, _, values⟩ := full.read (List.get_mem _ _) holds
    refine ⟨{ column with rowIds := selected }, ?_, length, rfl, values⟩
    rw [scannedColumn, reset, Option.bind_some, hcolumn, Option.map_some]
  obtain ⟨output, made, delivers⟩ := mapM_some passed
  have pointers : limit (s.setTable (toUpper scan.table.name) slots') = limit s := rfl
  have sound : Sound catalog (s.setTable (toUpper scan.table.name) slots') :=
    Sound.reset ⟨filled, holds, truth⟩ pointers rfl rfl (setTable_reset present resets)
  refine ⟨output, _, ?_, sound, delivers⟩
  rw [run, made]
  rfl

/-- A scan gives the whole columns, or throws and changes nothing. -/
theorem getData_cases (h : Sound catalog s) (current : Current catalog scan)
    (selected : Option (List Nat)) :
    (∃ output s', getData scan selected s = (.ok output, s') ∧ Sound catalog s' ∧
      Delivers scan selected s'.memory output) ∨
    ∃ e, getData scan selected s = (.error e, s) := by
  cases present : s.tables (toUpper scan.table.name) with
  | none =>
    refine .inr ⟨.invalidInput "Table not found", ?_⟩
    simp only [getData, present]
  | some slots =>
    by_cases cached : scan.columns.all (fun c => slots.any (·.name = toUpper c.name)) = true
    · exact .inl (getData_delivers h current selected present cached)
    · refine .inr ⟨.invalidInput "Column not found", ?_⟩
      simp [getData, present, cached]

lemma checkIfColumnCached_iff {tableName columnName : Name} :
    checkIfColumnCached tables tableName columnName = true ↔
      ∃ slots, tables (toUpper tableName) = some slots ∧
        slots.any (·.name = toUpper columnName) = true := by
  unfold checkIfColumnCached
  cases tables (toUpper tableName) with
  | none => simp
  | some slots => simp

/-- With all its columns cached, a scan loads nothing and delivers. -/
theorem scan_cached (cfg : Config) (h : Sound catalog s) (current : Current catalog scan)
    (selected : Option (List Nat)) (nonempty : scan.columns ≠ [])
    (cached : scan.uncached s.tables = []) :
    getDataDuckDB cfg catalog scan s = (.ok (), s) ∧
    ∃ output s', getData scan selected s = (.ok output, s') ∧ Sound catalog s' ∧
      Delivers scan selected s'.memory output := by
  constructor
  · have room : makeRoom cfg scan s = (.ok [], s) := by
      unfold makeRoom
      rw [Proc.bind_read, if_pos cached]
      rfl
    rw [getDataDuckDB_ok room]
    rfl
  · have all : ∀ c ∈ scan.columns,
        checkIfColumnCached s.tables scan.table.name c.name = true := by
      simpa [Scan.uncached] using cached
    obtain ⟨c, hc⟩ := List.exists_mem_of_ne_nil _ nonempty
    obtain ⟨slots, present, _⟩ := checkIfColumnCached_iff.mp (all c hc)
    apply getData_delivers h current selected present
    apply List.all_eq_true.mpr
    intro d hd
    obtain ⟨slots', present', named⟩ := checkIfColumnCached_iff.mp (all d hd)
    obtain rfl := Option.some.inj (present.symm.trans present')
    exact named

end Read

end CacheTruth
