import SiriusGpu.TableScan
import Mathlib.Data.List.Forall2
import Mathlib.Tactic.Tauto

/-!
# What a scan does to the caching region

Loading columns allocates buffers that lie apart from all live ones and fills
them with the converted data. Wherever a scan stops, the buffers known before
keep their contents, unless the scan has emptied the cache.
-/

namespace CacheLayout

open ThrowingState BufferArena ColumnFormat BufferManager TableScan

section Layout

def limit (s : State) : Region → Nat
  | .gpuCache => s.gpuCachingPointer
  | .cpuCache => s.cpuCachingPointer

/-- The buffers a column refers to. -/
def references (column : GPUColumn) : List Buffer :=
  column.data.toList ++ (column.offset.toList ++ column.validityMask.toList)

/-- The columns of the tables refer to none but these buffers. -/
def Within (tables : Tables) (entries : List (Buffer × Content)) : Prop :=
  ∀ name slots, tables name = some slots → ∀ slot ∈ slots, ∀ column ∈ slot.column,
    ∀ buffer ∈ references column, buffer ∈ entries.map Prod.fst

/-- The live buffers: those `known` from before with their contents, those filled since, and
those not filled yet. What has been handed out since lies apart from the known ones. -/
structure Holds (known : List (Buffer × Content)) (base : List Buffer)
    (filled : List (Buffer × Content)) (blank : List Buffer) (tables : Tables) (s : State) :
    Prop where
  layout : Layout (limit s) (blank ++ (filled ++ known).map Prod.fst)
  content : ∀ entry ∈ filled ++ known, read s.memory entry.1 = some entry.2
  tables : s.tables = tables
  within : Within s.tables (filled ++ known)
  log : ∃ new, s.handedOut = new ++ base ∧ ∀ r ∈ new, ∀ entry ∈ known, ¬ r.Overlaps entry.1

/-- What a throw leaves, whatever has been filled until then. -/
def Left (known : List (Buffer × Content)) (base : List Buffer) (s : State) : Prop :=
  ∃ filled, Holds known base filled [] s.tables s

variable {known filled : List (Buffer × Content)} {base blank : List Buffer} {tables : Tables}
  {s : State}

lemma Within.mono {entries entries' : List (Buffer × Content)} (h : Within tables entries)
    (more : entries ⊆ entries') : Within tables entries' := by
  intro name slots present slot hslot column hcolumn buffer hbuffer
  exact List.map_subset Prod.fst more
    (h name slots present slot hslot column hcolumn buffer hbuffer)

lemma Holds.left (h : Holds known base filled blank tables s) : Left known base s := by
  obtain rfl := h.tables
  exact ⟨filled, h.layout.sublist (List.sublist_append_right _ _), h.content, rfl, h.within, h.log⟩

lemma Holds.perm (h : Holds known base filled blank tables s)
    {filled' : List (Buffer × Content)} {blank' : List Buffer} (sameFilled : filled.Perm filled')
    (sameBlank : blank.Perm blank') : Holds known base filled' blank' tables s := by
  have same := sameFilled.append_right known
  refine ⟨?_, ?_, h.tables, h.within.mono same.subset, h.log⟩
  · exact h.layout.perm (sameBlank.append (same.map Prod.fst))
  · intro entry hentry
    exact h.content entry (same.symm.subset hentry)

/-- A step that changes neither pointers, tables, memory nor the history. -/
lemma Holds.congr {s' : State} (h : Holds known base filled blank tables s)
    (pointers : limit s' = limit s) (sameTables : s'.tables = s.tables)
    (memory : s'.memory = s.memory) (history : s'.handedOut = s.handedOut) :
    Holds known base filled blank tables s' := by
  refine ⟨?_, ?_, sameTables.trans h.tables, sameTables ▸ h.within, ?_⟩
  · rw [pointers]
    exact h.layout
  · rw [memory]
    exact h.content
  · rw [history]
    exact h.log

theorem outside_keeps {P : State → Prop} (keeps : ∀ s credit, P s → P { s with credit }) :
    Triple P outside (fun _ => P) P := by
  intro s hs
  unfold outside
  rcases s.credit with _ | _ | n
  · exact hs
  · exact hs
  · exact keeps s (some n) hs

theorem outside_holds : Triple (Holds known base filled blank tables) outside
    (fun _ => Holds known base filled blank tables) (Holds known base filled blank tables) :=
  outside_keeps fun _ _ h => h.congr rfl rfl rfl rfl

theorem outside_left : Triple (Holds known base filled blank tables) outside
    (fun _ => Holds known base filled blank tables) (Left known base) :=
  outside_holds.weaken (fun _ h => h) (fun _ _ h => h) fun _ h => h.left

theorem customCudaHostAlloc_holds (cfg : Config) (bytes : Nat) :
    Triple (Holds known base filled blank tables) (customCudaHostAlloc cfg bytes)
      (fun _ => Holds known base filled blank tables) (Left known base) := by
  intro s h
  have moved : Holds known base filled blank tables
      { s with cpuProcessingPointer := s.cpuProcessingPointer + bytes } :=
    h.congr rfl rfl rfl rfl
  unfold customCudaHostAlloc
  by_cases full : cfg.processingSizePerCpu ≤ s.cpuProcessingPointer + bytes
  · simp only [full, if_true]
    exact moved.left
  · simp only [full, if_false]
    exact moved

lemma padded_pos (bytes : Nat) : 0 < padded bytes := by
  unfold padded
  omega

/-- A new buffer at the limit of its region. -/
lemma Holds.alloc (h : Holds known base filled blank tables s) {buffer : Buffer} {s' : State}
    (start : buffer.start = limit s buffer.region) (size : 0 < buffer.size)
    (more : ∀ g, limit s g ≤ limit s' g) (room : buffer.stop = limit s' buffer.region)
    (sameTables : s'.tables = s.tables) (memory : s'.memory = s.memory)
    (history : s'.handedOut = buffer :: s.handedOut) :
    Holds known base filled (buffer :: blank) tables s' := by
  refine ⟨?_, ?_, sameTables.trans h.tables, sameTables ▸ h.within, ?_⟩
  · exact h.layout.alloc (Nat.le_of_eq start.symm) size more (Nat.le_of_eq room)
  · rw [memory]
    exact h.content
  · obtain ⟨new, hnew, apart⟩ := h.log
    refine ⟨buffer :: new, by rw [history, hnew]; rfl, ?_⟩
    intro r hr entry hentry
    rcases List.mem_cons.mp hr with rfl | hr
    · apply h.layout.fresh (Nat.le_of_eq start.symm)
      exact List.mem_append_right _
        (List.mem_map.mpr ⟨entry, List.mem_append_right _ hentry, rfl⟩)
    · exact apart r hr entry hentry

theorem customCudaMalloc_holds (cfg : Config) (bytes : Nat) :
    Triple (Holds known base filled blank tables) (customCudaMalloc cfg bytes)
      (fun buffer => Holds known base filled (buffer :: blank) tables) (Left known base) := by
  intro s h
  unfold customCudaMalloc
  by_cases gpu : s.gpuCachingPointer + padded bytes ≤ cfg.availableGpuCacheSize
  · simp only [gpu, if_true]
    apply h.alloc
    · rfl
    · exact padded_pos bytes
    · intro g
      cases g
      · exact Nat.le_add_right _ _
      · exact Nat.le_refl _
    all_goals rfl
  · simp only [gpu, if_false]
    by_cases cpu : s.cpuCachingPointer + padded bytes >
        cfg.cacheSizePerGpu - cfg.availableGpuCacheSize
    · simp only [cpu, if_true]
      exact h.left
    · simp only [cpu, if_false]
      apply h.alloc
      · rfl
      · exact padded_pos bytes
      · intro g
        cases g
        · exact Nat.le_refl _
        · exact Nat.le_add_right _ _
      all_goals rfl

theorem callCudaMemcpyHostToDevice_holds (buffer : Buffer) (content : Content) :
    Triple (Holds known base filled (buffer :: blank) tables)
      (callCudaMemcpyHostToDevice buffer content)
      (fun _ => Holds known base ((buffer, content) :: filled) blank tables)
      (Left known base) := by
  apply Triple.bind outside_left
  intro _
  apply Triple.update
  intro s h
  refine ⟨?_, ?_, h.tables, h.within.mono (List.subset_cons_self _ _), h.log⟩
  · apply h.layout.perm
    have middle : (buffer :: (blank ++ (filled ++ known).map Prod.fst)).Perm
        (blank ++ buffer :: (filled ++ known).map Prod.fst) := List.perm_middle.symm
    exact middle
  · intro entry hentry
    rcases List.mem_cons.mp hentry with rfl | hentry
    · exact read_write_self _ _ _
    · rw [h.layout.read_write]
      · exact h.content entry hentry
      · exact List.mem_append_right _ (List.mem_map.mpr ⟨entry, hentry, rfl⟩)

end Layout

section Load

variable {known filled : List (Buffer × Content)} {base blank : List Buffer} {tables : Tables}
  (cfg : Config) (catalog : Catalog) (scan : Scan)

def buffersOf (b : ColumnBuffers) : List Buffer := b.offset.toList ++ [b.mask, b.data]

def contentsOf : TableColumn × ColumnBuffers → List (Buffer × Content)
  | (c, b) => (b.data, dataContent c) :: (b.mask, maskContent c) ::
      b.offset.toList.map (·, offsetContent c)

/-- Strings have an offset buffer, and nothing else has. -/
def BuffersFor (c : TableColumn) (b : ColumnBuffers) : Prop :=
  b.offset.isSome = true ↔ c.type = .varchar

theorem allocColumn_holds (c : TableColumn) :
    Triple (Holds known base filled blank tables) (allocColumn cfg scan c)
      (fun b s => BuffersFor c b ∧ Holds known base filled (buffersOf b ++ blank) tables s)
      (Left known base) := by
  apply Triple.bind (customCudaHostAlloc_holds cfg _)
  intro _
  apply Triple.bind (customCudaMalloc_holds cfg _)
  intro data
  apply Triple.bind (customCudaHostAlloc_holds cfg _)
  intro _
  apply Triple.bind (customCudaMalloc_holds cfg _)
  intro mask
  apply Triple.ite
  · intro string
    apply Triple.bind (customCudaHostAlloc_holds cfg _)
    intro _
    apply Triple.bind (customCudaMalloc_holds cfg _)
    intro offset
    apply Triple.ret
    intro s h
    exact ⟨by simp [BuffersFor, string], h⟩
  · intro fixed
    apply Triple.ret
    intro s h
    exact ⟨by simp [BuffersFor, fixed], h⟩

theorem allocColumns_holds (columns : List TableColumn) :
    Triple (Holds known base filled blank tables) (Proc.collect (allocColumn cfg scan) columns)
      (fun buffers s => List.Forall₂ BuffersFor columns buffers ∧
        Holds known base filled (buffers.flatMap buffersOf ++ blank) tables s)
      (Left known base) := by
  have loop := Triple.collect (l := columns) (f := allocColumn cfg scan) (E := Left known base)
    (I := fun done buffers s => List.Forall₂ BuffersFor done buffers ∧
      Holds known base filled (buffers.flatMap buffersOf ++ blank) tables s) (by
    intro done c rest buffers _
    apply Triple.given
    intro fits
    apply (allocColumn_holds cfg scan c).post
    rintro b s ⟨fit, h⟩
    refine ⟨List.rel_append fits (.cons fit .nil), h.perm (List.Perm.refl _) ?_⟩
    rw [List.flatMap_append, List.flatMap_singleton, List.append_assoc]
    exact List.perm_append_comm_assoc _ _ _)
  exact loop.pre fun s h => ⟨.nil, h⟩

theorem copyColumn_holds (x : TableColumn × ColumnBuffers) :
    Triple (Holds known base filled (buffersOf x.2 ++ blank) tables) (copyColumn scan x)
      (fun _ => Holds known base (contentsOf x ++ filled) blank tables) (Left known base) := by
  obtain ⟨c, data, mask, offset⟩ := x
  cases offset with
  | none =>
    apply Triple.bind
    · apply (callCudaMemcpyHostToDevice_holds data (dataContent c)).pre
      intro s h
      exact h.perm (List.Perm.refl _) (List.Perm.swap data mask blank)
    · intro _
      apply (callCudaMemcpyHostToDevice_holds mask (maskContent c)).post
      intro _ s h
      exact h.perm (List.Perm.swap _ _ _) (List.Perm.refl _)
  | some offset =>
    apply Triple.ite
    · intro _
      exact Triple.raise fun _ h => h.left
    · intro _
      apply Triple.bind
      · apply (callCudaMemcpyHostToDevice_holds data (dataContent c)).pre
        intro s h
        refine h.perm (List.Perm.refl _) ?_
        exact List.perm_append_comm_assoc [offset, mask] [data] blank
      · intro _
        apply Triple.bind (callCudaMemcpyHostToDevice_holds offset (offsetContent c))
        intro _
        apply (callCudaMemcpyHostToDevice_holds mask (maskContent c)).post
        intro _ s h
        refine h.perm ?_ (List.Perm.refl _)
        exact List.perm_append_comm_assoc [(mask, maskContent c), (offset, offsetContent c)]
          [(data, dataContent c)] filled

theorem copyColumns_holds (l : List (TableColumn × ColumnBuffers)) :
    Triple (Holds known base filled (l.flatMap (fun x => buffersOf x.2) ++ blank) tables)
      (Proc.each (copyColumn scan) l)
      (fun _ => Holds known base (l.flatMap contentsOf ++ filled) blank tables)
      (Left known base) := by
  have loop := Triple.each (l := l) (f := copyColumn scan) (E := Left known base)
    (I := fun done => Holds known base (done.flatMap contentsOf ++ filled)
      ((l.drop done.length).flatMap (fun x => buffersOf x.2) ++ blank) tables) (by
    intro done x rest hl
    have todo : l.drop done.length = x :: rest := by rw [hl, List.drop_left]
    have later : l.drop (done ++ [x]).length = rest := by
      rw [List.length_append, List.length_singleton, ← List.drop_drop, todo]
      rfl
    rw [todo, later, List.flatMap_cons, List.append_assoc]
    apply (copyColumn_holds scan x).post
    intro _ s h
    refine h.perm ?_ (List.Perm.refl _)
    rw [List.flatMap_append, List.flatMap_singleton, List.append_assoc]
    exact List.perm_append_comm_assoc _ _ _)
  apply loop.weaken
  · intro s h
    exact h
  · intro _ s h
    simpa using h
  · exact fun _ h => h

end Load

section Register

variable {known filled : List (Buffer × Content)} {base blank : List Buffer} {tables : Tables}
  {cfg : Config} {catalog : Catalog} {scan : Scan}

def created (upTableName : Name) (columnCount : Nat) (tables : Tables) : Tables :=
  Function.update tables upTableName
    (some ((tables upTableName).getD (List.replicate columnCount ⟨[], none⟩)))

/-- The tables after a column has been registered. -/
def registerColumn (catalog : Catalog) (tableName columnName : Name) (tables : Tables) :
    Option Tables := do
  let table ← catalog (toUpper tableName)
  let columnId ← table.columns.findIdx? (·.name = columnName)
  let column ← table.columns[columnId]?
  let type ← convertLogicalTypeToColumnType column.type
  let slots := (tables (toUpper tableName)).getD (List.replicate table.columns.length ⟨[], none⟩)
  if columnId < slots.length then
    some (Function.update tables (toUpper tableName)
      (some (slots.set columnId ⟨toUpper columnName, some (emptyColumn type)⟩)))
  else none

/-- The tables after a column has been set to what has been loaded. -/
def setColumn (scan : Scan) (tables : Tables) (x : TableColumn × ColumnBuffers) :
    Option Tables := do
  let slots ← tables (toUpper scan.table.name)
  let idx ← slots.findIdx? (·.name = toUpper x.1.name)
  let type ← convertLogicalTypeToColumnType x.1.type
  some (Function.update tables (toUpper scan.table.name)
    (some (slots.set idx ⟨toUpper x.1.name, some (loadedColumn scan.table.rowCount type x.2)⟩)))

lemma Holds.setTables {s : State} (h : Holds known base filled blank tables s)
    {tables' : Tables} (within : Within tables' (filled ++ known)) :
    Holds known base filled blank tables' { s with tables := tables' } :=
  ⟨h.layout, h.content, rfl, within, h.log⟩

/-- A change of the slots of one table. -/
lemma Within.update {entries : List (Buffer × Content)} (h : Within tables entries)
    {upTableName : Name} {slots : List Slot}
    (changed : ∀ slot ∈ slots, ∀ column ∈ slot.column, ∀ buffer ∈ references column,
      buffer ∈ entries.map Prod.fst) :
    Within (Function.update tables upTableName (some slots)) entries := by
  intro name slots' present
  by_cases here : name = upTableName
  · subst here
    rw [Function.update_self] at present
    obtain rfl := Option.some.inj present
    exact changed
  · rw [Function.update_of_ne here] at present
    exact h name slots' present

lemma Within.created {entries : List (Buffer × Content)} (h : Within tables entries)
    (upTableName : Name) (columnCount : Nat) :
    Within (created upTableName columnCount tables) entries := by
  apply h.update
  intro slot hslot column hcolumn
  cases present : tables upTableName with
  | none =>
    rw [present, Option.getD_none] at hslot
    obtain rfl := List.eq_of_mem_replicate hslot
    cases hcolumn
  | some slots =>
    rw [present, Option.getD_some] at hslot
    exact h upTableName slots present slot hslot column hcolumn

lemma Within.setSlot {entries : List (Buffer × Content)} (h : Within tables entries)
    {upTableName : Name} {slots : List Slot} (present : tables upTableName = some slots)
    (idx : Nat) (name : Name) {column : GPUColumn}
    (inside : ∀ buffer ∈ references column, buffer ∈ entries.map Prod.fst) :
    Within (Function.update tables upTableName (some (slots.set idx ⟨name, some column⟩)))
      entries := by
  apply h.update
  intro slot hslot column' hcolumn'
  rcases List.mem_or_eq_of_mem_set hslot with hslot | rfl
  · exact h upTableName slots present slot hslot column' hcolumn'
  · obtain rfl := Option.some.inj hcolumn'
    exact inside

lemma createTable_eq (upTableName : Name) (columnCount : Nat) (s : State) :
    createTable upTableName columnCount s =
      (.ok (), { s with tables := created upTableName columnCount s.tables }) := by
  unfold createTable Proc.update created
  cases present : s.tables upTableName with
  | none => simp only [present, Option.getD_none, State.setTable]
  | some slots =>
    have same : Function.update s.tables upTableName (some slots) = s.tables := by
      rw [← present, Function.update_eq_self]
    simp only [present, Option.getD_some, same]

theorem createTable_holds (upTableName : Name) (columnCount : Nat) {E : State → Prop} :
    Triple (Holds known base filled blank tables) (createTable upTableName columnCount)
      (fun _ => Holds known base filled blank (created upTableName columnCount tables)) E := by
  intro s h
  rw [createTable_eq, ← h.tables]
  exact h.setTables (h.within.created _ _)

theorem createColumn_holds {upTableName : Name} {slots : List Slot}
    (present : tables upTableName = some slots) (upColumnName : Name) (type : GPUColumnType)
    (columnId : Nat) :
    Triple (Holds known base filled blank tables)
      (createColumn upTableName upColumnName type columnId)
      (fun _ s => columnId < slots.length ∧ Holds known base filled blank
        (Function.update tables upTableName
          (some (slots.set columnId ⟨upColumnName, some (emptyColumn type)⟩))) s)
      (Holds known base filled blank tables) := by
  intro s h
  have found : s.tables upTableName = some slots := by rw [h.tables, present]
  by_cases inside : columnId < slots.length
  · simp only [createColumn, found, inside, if_true]
    refine ⟨trivial, ?_⟩
    rw [State.setTable, ← h.tables]
    have nothing : ∀ buffer ∈ references (emptyColumn type),
        buffer ∈ (filled ++ known).map Prod.fst := by simp [references, emptyColumn]
    exact h.setTables (h.within.setSlot found _ _ nothing)
  · simp only [createColumn, found, inside, if_false]
    exact h

/-- A throw before the name is registered: at most the table has been created. -/
def Unregistered (known : List (Buffer × Content)) (base : List Buffer)
    (filled : List (Buffer × Content)) (blank : List Buffer) (tables : Tables)
    (upTableName : Name) (s : State) : Prop :=
  Holds known base filled blank tables s ∨
    ∃ columnCount, Holds known base filled blank (created upTableName columnCount tables) s

lemma Unregistered.left {s : State} {upTableName : Name}
    (h : Unregistered known base filled blank tables upTableName s) : Left known base s := by
  rcases h with h | ⟨_, h⟩
  · exact h.left
  · exact h.left

theorem createTableAndColumnInGPU_holds (catalog : Catalog) (tableName columnName : Name) :
    Triple (Holds known base filled blank tables)
      (createTableAndColumnInGPU catalog tableName columnName)
      (fun _ s => ∃ tables', registerColumn catalog tableName columnName tables = some tables' ∧
        Holds known base filled blank tables' s)
      (Unregistered known base filled blank tables (toUpper tableName)) := by
  apply Triple.bind (outside_holds.weaken (fun _ h => h) (fun _ _ h => h) fun _ h => .inl h)
  intro _
  cases entry : catalog (toUpper tableName) with
  | none => exact Triple.raise fun _ h => .inl h
  | some table =>
    cases index : table.columns.findIdx? (·.name = columnName) with
    | none =>
      simp only [index]
      exact Triple.raise fun _ h => .inl h
    | some columnId =>
      simp only [index]
      apply Triple.bind (createTable_holds _ _)
      intro _
      cases kind : (table.columns[columnId]?).bind
          (convertLogicalTypeToColumnType ·.type) with
      | none => exact Triple.raise fun _ h => .inr ⟨_, h⟩
      | some type =>
        obtain ⟨column, hcolumn, htype⟩ := Option.bind_eq_some_iff.mp kind
        apply (createColumn_holds (Function.update_self _ _ _) _ type columnId).weaken
        · exact fun _ h => h
        · rintro _ s ⟨inside, h⟩
          refine ⟨_, ?_, h⟩
          simp only [registerColumn, entry, index, hcolumn, htype, inside, Option.bind_eq_bind,
            Option.bind_some, if_true, Function.update_idem]
        · exact fun _ h => .inr ⟨_, h⟩

def registerColumns (catalog : Catalog) (scan : Scan) (columns : List TableColumn)
    (tables : Tables) : Option Tables :=
  columns.foldlM (fun tables c => registerColumn catalog scan.table.name c.name tables) tables

def setColumns (scan : Scan) (loaded : List (TableColumn × ColumnBuffers)) (tables : Tables) :
    Option Tables :=
  loaded.foldlM (setColumn scan) tables

theorem createColumns_holds (columns : List TableColumn) :
    Triple (Holds known base filled blank tables) (createColumns catalog scan columns)
      (fun _ s => ∃ tables', registerColumns catalog scan columns tables = some tables' ∧
        Holds known base filled blank tables' s)
      (Left known base) := by
  have loop := Triple.each (l := columns) (E := Left known base)
    (f := fun c => createTableAndColumnInGPU catalog scan.table.name c.name)
    (I := fun done s => ∃ tables', registerColumns catalog scan done tables = some tables' ∧
      Holds known base filled blank tables' s) (by
    intro done c rest _
    apply Triple.some
    intro tables'
    apply Triple.given
    intro registered
    apply (createTableAndColumnInGPU_holds catalog scan.table.name c.name).weaken
    · exact fun _ h => h
    · rintro _ s ⟨tables'', step, h⟩
      refine ⟨tables'', ?_, h⟩
      simp only [registerColumns] at registered
      simp only [registerColumns, List.foldlM_append, registered, List.foldlM_cons,
        List.foldlM_nil, step, Option.bind_eq_bind, Option.bind_some, Option.pure_def]
    · exact fun _ h => h.left)
  exact loop.pre fun s h => ⟨tables, rfl, h⟩

lemma references_loadedColumn (rowCount : Nat) (type : GPUColumnType) (c : TableColumn)
    (b : ColumnBuffers) {buffer : Buffer}
    (h : buffer ∈ references (loadedColumn rowCount type b)) :
    buffer ∈ (contentsOf (c, b)).map Prod.fst := by
  obtain ⟨data, mask, offset⟩ := b
  cases offset with
  | none => simpa [references, loadedColumn, contentsOf] using h
  | some offset =>
    simp only [references, loadedColumn, contentsOf, Option.toList_some, List.singleton_append,
      List.mem_cons, List.not_mem_nil, or_false, List.map_cons, List.map_nil] at h ⊢
    tauto

theorem publishColumn_holds (x : TableColumn × ColumnBuffers) (inside : contentsOf x ⊆ filled) :
    Triple (Holds known base filled blank tables) (publishColumn scan x)
      (fun _ s => ∃ tables', setColumn scan tables x = some tables' ∧
        Holds known base filled blank tables' s)
      (Left known base) := by
  obtain ⟨c, b⟩ := x
  intro s h
  simp only [publishColumn, setColumn, h.tables]
  cases present : tables (toUpper scan.table.name) with
  | none => exact h.left
  | some slots =>
    cases place : slots.findIdx? (·.name = toUpper c.name) with
    | none =>
      simp only [place]
      exact h.left
    | some idx =>
      cases kind : convertLogicalTypeToColumnType c.type with
      | none =>
        simp only [place]
        exact h.left
      | some type =>
        simp only [place, Option.bind_eq_bind, Option.bind_some]
        refine ⟨_, rfl, ?_⟩
        have found : s.tables (toUpper scan.table.name) = some slots := by rw [h.tables, present]
        rw [State.setTable, ← h.tables]
        apply h.setTables
        apply h.within.setSlot found
        intro buffer hbuffer
        exact List.map_subset Prod.fst (List.Subset.trans inside (List.subset_append_left _ _))
          (references_loadedColumn _ _ c b hbuffer)

theorem publishColumns_holds (loaded : List (TableColumn × ColumnBuffers))
    (inside : loaded.flatMap contentsOf ⊆ filled) :
    Triple (Holds known base filled blank tables) (Proc.each (publishColumn scan) loaded)
      (fun _ s => ∃ tables', setColumns scan loaded tables = some tables' ∧
        Holds known base filled blank tables' s)
      (Left known base) := by
  have loop := Triple.each (l := loaded) (E := Left known base) (f := publishColumn scan)
    (I := fun done s => ∃ tables', setColumns scan done tables = some tables' ∧
      Holds known base filled blank tables' s) (by
    intro done x rest split
    apply Triple.some
    intro tables'
    apply Triple.given
    intro published
    have here : contentsOf x ⊆ filled := by
      intro entry hentry
      exact inside (List.mem_flatMap.mpr ⟨x, by simp [split], hentry⟩)
    apply (publishColumn_holds x here).post
    rintro _ s ⟨tables'', step, h⟩
    refine ⟨tables'', ?_, h⟩
    simp only [setColumns] at published
    simp only [setColumns, List.foldlM_append, published, List.foldlM_cons,
      List.foldlM_nil, step, Option.bind_eq_bind, Option.bind_some, Option.pure_def])
  exact loop.pre fun s h => ⟨tables, rfl, h⟩

/-- What a load leaves: the columns registered, their data in buffers of their own, and the
columns set to these buffers. -/
def Loaded (known : List (Buffer × Content)) (base : List Buffer)
    (filled : List (Buffer × Content)) (tables : Tables) (catalog : Catalog) (scan : Scan)
    (columns : List TableColumn) (s : State) : Prop :=
  ∃ buffers registered published, List.Forall₂ BuffersFor columns buffers ∧
    registerColumns catalog scan columns tables = some registered ∧
    setColumns scan (columns.zip buffers) registered = some published ∧
    Holds known base ((columns.zip buffers).flatMap contentsOf ++ filled) [] published s

lemma flatMap_zip_snd {α β γ : Type} {R : α → β → Prop} {as : List α} {bs : List β}
    (h : List.Forall₂ R as bs) (f : β → List γ) :
    (as.zip bs).flatMap (fun x => f x.2) = bs.flatMap f := by
  induction h with
  | nil => rfl
  | cons _ _ ih => simp [ih]

theorem scanDataDuckDB_holds (columns : List TableColumn) :
    Triple (Holds known base filled [] tables) (scanDataDuckDB cfg scan columns)
      (fun _ s => ∃ buffers published, List.Forall₂ BuffersFor columns buffers ∧
        setColumns scan (columns.zip buffers) tables = some published ∧
        Holds known base ((columns.zip buffers).flatMap contentsOf ++ filled) [] published s)
      (Left known base) := by
  apply Triple.bind (Q := fun _ => Holds known base filled [] tables)
  · exact Triple.each (I := fun _ => Holds known base filled [] tables) fun _ _ _ _ =>
      customCudaHostAlloc_holds cfg _
  intro _
  apply Triple.bind (allocColumns_holds cfg scan columns)
  intro buffers
  apply Triple.given
  intro fit
  apply Triple.bind (Q := fun _ =>
    Holds known base filled (buffers.flatMap buffersOf ++ []) tables)
  · exact Triple.each
      (I := fun _ => Holds known base filled (buffers.flatMap buffersOf ++ []) tables)
      fun _ _ _ _ => outside_left
  intro _
  rw [← flatMap_zip_snd fit]
  apply Triple.bind (copyColumns_holds scan (columns.zip buffers))
  intro _
  apply (publishColumns_holds (columns.zip buffers) (List.subset_append_left _ _)).post
  rintro _ s ⟨published, set, h⟩
  exact ⟨buffers, published, fit, set, h⟩

/-- The part of a scan that registers and loads. -/
theorem load_holds (cfg : Config) (catalog : Catalog) (scan : Scan)
    (columns : List TableColumn) :
    Triple (Holds known base filled [] tables)
      (createColumns catalog scan columns >>= fun _ => scanDataDuckDB cfg scan columns)
      (fun _ => Loaded known base filled tables catalog scan columns) (Left known base) := by
  apply Triple.bind (createColumns_holds columns)
  intro _
  apply Triple.some
  intro registered
  apply Triple.given
  intro hregistered
  apply (scanDataDuckDB_holds columns).post
  rintro _ s ⟨buffers, published, fit, set, h⟩
  exact ⟨buffers, registered, published, fit, hregistered, set, h⟩

end Register

section Room

variable {cfg : Config} {scan : Scan} {s : State}

/-- The scan empties the cache: it has columns to load, gets to know their size, and they fit
into the cache but not beside what is there. -/
def Evicts (cfg : Config) (scan : Scan) (s : State) : Prop :=
  scan.uncached s.tables ≠ [] ∧
  (∀ credit ∈ s.credit, scan.chunks.length ≤ credit) ∧
  cacheFull cfg scan (scan.uncached s.tables) s = true ∧
  scan.totalSize (scan.uncached s.tables) ≤ cfg.cacheSizePerGpu

instance (cfg : Config) (scan : Scan) (s : State) : Decidable (Evicts cfg scan s) :=
  inferInstanceAs (Decidable (_ ∧ _ ∧ _ ∧ _))

def emptied (s : State) (credit : Option Nat) : State :=
  { s with gpuCachingPointer := 0, cpuCachingPointer := 0, tables := clearNames s.tables, credit }

lemma outsides_cases {β : Type} (l : List β) (s : State) :
    ((∀ credit ∈ s.credit, l.length ≤ credit) ∧
      ∃ credit, Proc.each (fun _ => outside) l s = (.ok (), { s with credit })) ∨
    (¬ (∀ credit ∈ s.credit, l.length ≤ credit) ∧
      ∃ e credit, Proc.each (fun _ => outside) l s = (.error e, { s with credit })) := by
  induction l generalizing s with
  | nil => exact .inl ⟨fun _ _ => Nat.zero_le _, s.credit, rfl⟩
  | cons b l ih =>
    unfold Proc.each
    rcases hcredit : s.credit with _ | _ | n
    · have step : outside s = (.ok (), s) := by simp only [outside, hcredit]
      rw [Proc.bind_ok step]
      rcases ih s with ⟨_, run⟩ | ⟨short, _⟩
      · exact .inl ⟨by simp, run⟩
      · simp [hcredit] at short
    · have step : outside s = (.error .external, s) := by simp only [outside, hcredit]
      exact .inr ⟨by simp, .external, s.credit, Proc.bind_error step⟩
    · have step : outside s = (.ok (), { s with credit := some n }) := by
        simp only [outside, hcredit]
      rw [Proc.bind_ok step]
      rcases ih { s with credit := some n } with ⟨enough, run⟩ | ⟨short, run⟩
      · exact .inl ⟨by simpa using enough, run⟩
      · exact .inr ⟨by simpa using short, run⟩

/-- Everything the first part of a scan can do. -/
theorem makeRoom_cases (cfg : Config) (scan : Scan) (s : State) :
    (¬ Evicts cfg scan s ∧
      ∃ credit, makeRoom cfg scan s = (.ok (scan.uncached s.tables), { s with credit })) ∨
    (¬ Evicts cfg scan s ∧ ∃ e credit, makeRoom cfg scan s = (.error e, { s with credit })) ∨
    (Evicts cfg scan s ∧
      ∃ credit, makeRoom cfg scan s = (.ok scan.columns, emptied s credit)) := by
  unfold makeRoom
  rw [Proc.bind_read]
  by_cases none : scan.uncached s.tables = []
  · rw [if_pos none]
    refine .inl ⟨fun h => h.1 none, s.credit, ?_⟩
    rw [none]
    rfl
  rw [if_neg none]
  rcases outsides_cases scan.chunks s with ⟨enough, credit, run⟩ | ⟨short, e, credit, run⟩
  · rw [Proc.bind_ok run, Proc.bind_read]
    have same : cacheFull cfg scan (scan.uncached s.tables) { s with credit } =
        cacheFull cfg scan (scan.uncached s.tables) s := rfl
    rw [same]
    by_cases full : cacheFull cfg scan (scan.uncached s.tables) s = true
    · rw [if_pos full]
      by_cases large : cfg.cacheSizePerGpu < scan.totalSize (scan.uncached s.tables)
      · rw [if_pos large]
        exact .inr (.inl ⟨fun h => Nat.not_le_of_lt large h.2.2.2, _, credit, rfl⟩)
      · rw [if_neg large]
        exact .inr (.inr ⟨⟨none, enough, full, Nat.le_of_not_lt large⟩, credit, rfl⟩)
    · rw [if_neg full]
      exact .inl ⟨fun h => full h.2.2.1, credit, rfl⟩
  · exact .inr (.inl ⟨fun h => short h.2.1, e, credit, Proc.bind_error run⟩)

/-- A step that has nothing to say of what was live before. -/
lemma Holds.forget {known filled : List (Buffer × Content)} {base blank : List Buffer}
    {tables : Tables} (h : Holds known base filled blank tables s) :
    Holds [] [] (filled ++ known) blank tables s := by
  have same : filled ++ known ++ [] = filled ++ known := List.append_nil _
  refine ⟨same.symm ▸ h.layout, same.symm ▸ h.content, h.tables, same.symm ▸ h.within, ?_⟩
  exact ⟨s.handedOut, (List.append_nil _).symm, fun _ _ _ none => absurd none List.not_mem_nil⟩

lemma Left.arranged {known : List (Buffer × Content)} {base : List Buffer}
    (h : Left known base s) : Left [] [] s := by
  obtain ⟨filled, holds⟩ := h
  exact ⟨filled ++ known, holds.forget⟩

/-- All that has been filled becomes known. -/
lemma Holds.remember {filled : List (Buffer × Content)} {tables : Tables}
    (h : Holds [] [] filled [] tables s) : Holds filled s.handedOut [] [] tables s := by
  have same : filled ++ [] = filled := List.append_nil _
  refine ⟨same ▸ h.layout, same ▸ h.content, h.tables, same ▸ h.within, [], rfl, ?_⟩
  intro _ none
  cases none

theorem holds_initial : Holds [] [] [] [] initial.tables initial := by
  refine ⟨Layout.empty _, ?_, rfl, ?_, [], rfl, ?_⟩
  · intro _ none
    cases none
  · intro name slots none
    cases none
  · intro _ none
    cases none

theorem holds_emptied (s : State) (credit : Option Nat) :
    Holds [] s.handedOut [] [] (emptied s credit).tables (emptied s credit) := by
  refine ⟨Layout.empty _, ?_, rfl, ?_, [], rfl, ?_⟩
  · intro _ none
    cases none
  · intro name slots present slot hslot column hcolumn
    obtain ⟨_, _, rfl⟩ := Option.map_eq_some_iff.mp present
    obtain ⟨_, _, rfl⟩ := List.mem_map.mp hslot
    cases hcolumn
  · intro _ none
    cases none

end Room

section Reset

variable {known filled : List (Buffer × Content)} {base blank : List Buffer}
  {tables tables' : Tables} {s s' : State}

/-- The slots of one list are those of the other, some with their row ids removed. -/
def SlotsReset (slots slots' : List Slot) : Prop :=
  ∀ i : Nat, ∃ cleared : Bool,
    slots'[i]? = (slots[i]?).map fun slot => if cleared then slot.resetRowIds else slot

lemma slotsReset_map (slots : List Slot) : SlotsReset slots (slots.map Slot.resetRowIds) := by
  intro i
  exact ⟨true, by simp⟩

lemma slotsReset_refl (slots : List Slot) : SlotsReset slots slots := by
  intro i
  exact ⟨false, by simp⟩

lemma slotsReset_clear {α : Type} (place : α → Nat) (ids : List α) (slots : List Slot) :
    SlotsReset slots (ids.foldl (fun slots id => clearRowIds slots (place id)) slots) := by
  induction ids generalizing slots with
  | nil => exact slotsReset_refl slots
  | cons id ids ih =>
    intro i
    obtain ⟨cleared, later⟩ := ih (clearRowIds slots (place id)) i
    refine ⟨cleared || decide (place id = i), ?_⟩
    rw [List.foldl_cons, later, clearRowIds, List.getElem?_modify, Option.map_eq_map,
      Option.map_map]
    congr 1
    funext slot
    by_cases here : place id = i
    · cases cleared <;> simp [here, Slot.resetRowIds, Option.map_map, Function.comp_def]
    · simp [here]

lemma references_resetRowIds {slot : Slot} {column : GPUColumn}
    (h : column ∈ slot.resetRowIds.column) :
    ∃ before ∈ slot.column, references column = references before := by
  obtain ⟨before, hbefore, rfl⟩ := Option.map_eq_some_iff.mp h
  exact ⟨before, hbefore, rfl⟩

lemma Within.reset {entries : List (Buffer × Content)} (h : Within tables entries)
    (same : ∀ name slots', tables' name = some slots' →
      ∃ slots, tables name = some slots ∧ SlotsReset slots slots') : Within tables' entries := by
  intro name slots' present' slot' hslot' column hcolumn
  obtain ⟨slots, present, resets⟩ := same name slots' present'
  obtain ⟨i, hi⟩ := List.mem_iff_getElem?.mp hslot'
  obtain ⟨cleared, here⟩ := resets i
  rw [hi] at here
  obtain ⟨slot, hslot, rfl⟩ := Option.map_eq_some_iff.mp here.symm
  have inside := h name slots present slot (List.mem_of_getElem? hslot)
  cases cleared with
  | false => exact inside column hcolumn
  | true =>
    obtain ⟨before, hbefore, sameBuffers⟩ := references_resetRowIds hcolumn
    rw [sameBuffers]
    exact inside before hbefore

/-- A step that removes row ids from the tables and changes nothing else of the cache. -/
lemma Holds.reset (h : Holds known base filled blank s.tables s)
    (pointers : limit s' = limit s) (memory : s'.memory = s.memory)
    (history : s'.handedOut = s.handedOut)
    (same : ∀ name slots', s'.tables name = some slots' →
      ∃ slots, s.tables name = some slots ∧ SlotsReset slots slots') :
    Holds known base filled blank s'.tables s' := by
  refine ⟨?_, ?_, rfl, h.within.reset same, ?_⟩
  · rw [pointers]
    exact h.layout
  · rw [memory]
    exact h.content
  · rw [history]
    exact h.log

/-- Setting the slots of a table to the same ones without some row ids. -/
lemma setTable_reset {upTableName : Name} {slots slots' : List Slot}
    (present : s.tables upTableName = some slots) (resets : SlotsReset slots slots')
    (name : Name) (slots'' : List Slot)
    (after : (s.setTable upTableName slots').tables name = some slots'') :
    ∃ slots, s.tables name = some slots ∧ SlotsReset slots slots'' := by
  change Function.update s.tables upTableName (some slots') name = _ at after
  by_cases here : name = upTableName
  · subst here
    rw [Function.update_self] at after
    obtain rfl := Option.some.inj after
    exact ⟨slots, present, resets⟩
  · rw [Function.update_of_ne here] at after
    exact ⟨slots'', after, slotsReset_refl slots''⟩

lemma resetBuffer_reset (s : State) (name : Name) (slots' : List Slot)
    (after : (resetBuffer s).tables name = some slots') :
    ∃ slots, s.tables name = some slots ∧ SlotsReset slots slots' := by
  obtain ⟨slots, hslots, rfl⟩ := Option.map_eq_some_iff.mp after
  exact ⟨slots, hslots, slotsReset_map slots⟩

def scannedColumn (selected : Option (List Nat)) (slots : List Slot) (id : Nat) :
    Option GPUColumn :=
  (slots[id]?).bind fun slot => slot.column.map fun column => { column with rowIds := selected }

/-- What a scan reads once all its columns are found. -/
lemma getData_eq {scan : Scan} {slots : List Slot} (selected : Option (List Nat))
    (present : s.tables (toUpper scan.table.name) = some slots)
    (cached : scan.columns.all (fun c => slots.any (·.name = toUpper c.name)) = true) :
    ∃ slots', SlotsReset slots slots' ∧ getData scan selected s =
      ((scan.outputIds.mapM fun id => scannedColumn selected slots' id.val).elim
        (.error outOfBounds) .ok, s.setTable (toUpper scan.table.name) slots') := by
  refine ⟨_, slotsReset_clear Fin.val (scan.filterColumns.map scan.columnIds.get) slots, ?_⟩
  simp only [getData, present, cached, if_true]
  rfl

theorem resetBuffer_left (h : Left known base s) : Left known base (resetBuffer s) := by
  obtain ⟨filled, holds⟩ := h
  have pointers : limit (resetBuffer s) = limit s := rfl
  exact ⟨filled, holds.reset pointers rfl rfl (resetBuffer_reset s)⟩

end Reset

section Scan

variable {cfg : Config} {catalog : Catalog} {scan : Scan} {known : List (Buffer × Content)}
  {base : List Buffer} {s s' : State}

/-- The rest of a scan once its columns are known. -/
def loadColumns (cfg : Config) (catalog : Catalog) (scan : Scan) (columns : List TableColumn) :
    Action Unit :=
  if columns = [] then pure () else do
    createColumns catalog scan columns
    scanDataDuckDB cfg scan columns

lemma getDataDuckDB_ok {columns : List TableColumn}
    (room : makeRoom cfg scan s = (.ok columns, s')) :
    getDataDuckDB cfg catalog scan s = loadColumns cfg catalog scan columns s' :=
  Proc.bind_ok room

theorem loadColumns_left (columns : List TableColumn) :
    Triple (Left known base) (loadColumns cfg catalog scan columns) (fun _ => Left known base)
      (Left known base) := by
  apply Triple.some
  intro filled
  apply Triple.ite
  · intro _
    exact Triple.ret fun _ h => ⟨filled, h⟩
  · rintro _ s h
    have run := load_holds cfg catalog scan columns s h
    rcases hrun : (createColumns catalog scan columns >>= fun _ =>
      scanDataDuckDB cfg scan columns) s with ⟨result, s'⟩
    rw [hrun] at run
    cases result with
    | ok _ =>
      obtain ⟨_, _, _, _, _, _, loaded⟩ := run
      exact loaded.left
    | error _ => exact run

/-- A scan that does not empty the cache keeps what is known. -/
theorem getDataDuckDB_left (cfg : Config) (catalog : Catalog) (scan : Scan) :
    Triple (fun s => ¬ Evicts cfg scan s ∧ Left known base s) (getDataDuckDB cfg catalog scan)
      (fun _ => Left known base) (Left known base) := by
  rintro s ⟨stays, filled, h⟩
  rcases makeRoom_cases cfg scan s with ⟨_, credit, room⟩ | ⟨_, e, credit, room⟩ | ⟨evicts, _⟩
  · rw [getDataDuckDB_ok room]
    exact loadColumns_left _ _ ⟨filled, h.congr rfl rfl rfl rfl⟩
  · rw [getDataDuckDB, Proc.bind_error room]
    exact ⟨filled, h.congr rfl rfl rfl rfl⟩
  · exact absurd evicts stays

/-- A scan that empties the cache starts anew. -/
theorem getDataDuckDB_emptied (cfg : Config) (catalog : Catalog) (scan : Scan)
    (base : List Buffer) :
    Triple (fun s => Evicts cfg scan s ∧ s.handedOut = base) (getDataDuckDB cfg catalog scan)
      (fun _ => Left [] base) (Left [] base) := by
  rintro s ⟨evicts, rfl⟩
  rcases makeRoom_cases cfg scan s with ⟨stays, _⟩ | ⟨stays, _⟩ | ⟨_, credit, room⟩
  · exact absurd evicts stays
  · exact absurd evicts stays
  · rw [getDataDuckDB_ok room]
    exact loadColumns_left _ _ ⟨[], holds_emptied s credit⟩

end Scan

end CacheLayout
