import SiriusGpu.CollectorLoop
import SiriusGpu.ResultChunks

/-!
# Delivered relations

What is fetched after one sink, and after several, compared with the rows of the
relations that were sunk.
-/

namespace ResultDelivery

open ThrowingState GpuMemory GpuColumns Materialize ResultCollector HostColumns CollectorLoop
open ResultChunks

section Delivery

variable {cast : DecimalCast} {types : List LogicalType} {relation : GPUIntermediateRelation}
  {s : State} {rows : Nat} {results : GPUResultCollection}

def vectors (rows : Nat) : Nat := (rows + standardVectorSize - 1) / standardVectorSize

/-- A column that is entirely NULL and has no data, as the left ones of `GetData` of a RIGHT
join. -/
def Dataless (rows : Nat) (c : GPUColumn) : Prop :=
  c.dataWrapper.data = none ∧ (c.rowCount = 0 ∨ c.rowCount = rows)

/-- A column of a relation of `rows` rows that may be sunk. -/
def Given (s : State) (rows : Nat) (c : GPUColumn) : Prop :=
  Readable s rows c ∨ Dataless rows c

/-- When a relation with rows is taken. -/
structure Accepted (s : State) (types : List LogicalType) (relation : GPUIntermediateRelation) :
    Prop where
  data : ∀ c ∈ relation, c.dataWrapper.data ≠ none
  planned : ∀ x ∈ types.zip relation, deliverable x.1 x.2.type = true
  known : ∀ c ∈ relation, ∀ h, Consumed c h → s.Known h
  near : ∀ c ∈ relation, c.type = .varchar → c.rowCount ≤ 2 ^ 32
  clear : relation.Pairwise (Clear s)
  fits : (needed s (types.zip relation)).Fits (reserve relation)

theorem onResults_inv {α : Type} {x : Proc GPUResultCollection Exception α} {a : α}
    {c c' : Collector} (run : onResults x c = (.ok a, c')) :
    x c.results = (.ok a, c'.results) := by
  have result := congrArg Prod.fst run
  have after := congrArg (fun r => r.2.results) run
  exact Prod.ext result after

theorem onMemory_inv {α : Type} {x : Action α} {a : α} {c c' : Collector}
    (run : onMemory x c = (.ok a, c')) :
    x c.memory = (.ok a, c'.memory) ∧ c'.results = c.results := by
  have result := congrArg Prod.fst run
  have after := congrArg (fun r => r.2.memory) run
  exact ⟨Prod.ext result after, (congrArg (fun r => r.2.results) run).symm⟩

theorem zip_snd (count : types.length = relation.length) :
    (types.zip relation).map Prod.snd = relation := by
  rw [List.map_snd_zip (Nat.le_of_eq count.symm)]

theorem Accepted.collectable (h : Accepted s types relation)
    (count : types.length = relation.length) :
    AllCollectable s (types.zip relation) (reserve relation) := by
  refine ⟨fun x member => ?_, ?_, h.fits⟩
  · have typed : (HostColumn.mk (hostType x.1 x.2.type) 0 (.strings []) []).type =
        hostType x.1 x.2.type := rfl
    have kinds := (deliverable_iff typed).mpr (h.planned x member)
    have inside := (List.of_mem_zip member).2
    exact ⟨kinds.1.1, kinds.1.2, h.known x.2 inside, h.near x.2 inside⟩
  · have clear := h.clear
    rw [← zip_snd count] at clear
    exact List.pairwise_map.mp clear

theorem held_referable {columns : List (LogicalType × GPUColumn)} {hosts : List HostColumn}
    (held : List.Forall₂ (fun x host => Held cast s x.1 x.2 host) columns hosts)
    (collectable : ∀ x ∈ columns, Collectable s x.1 x.2) :
    (((columns.map Prod.fst).zip hosts).all fun x => referable x.1 x.2) = true ↔
      ∀ x ∈ columns, deliverable x.1 x.2.type = true := by
  induction held with
  | nil => simp
  | cons first _ ih =>
    obtain ⟨pieces, valid, -, -, hosted⟩ := first
    have ready := collectable _ List.mem_cons_self
    have kinds := deliverable_iff hosted.type
    have later := ih fun x member => collectable x (List.mem_cons_of_mem _ member)
    simp only [List.map_cons, List.zip_cons_cons, List.all_cons, Bool.and_eq_true, later,
      List.forall_mem_cons]
    exact and_congr_left fun _ => ⟨fun refer => kinds.mp ⟨⟨ready.type, ready.converted⟩, refer⟩,
      fun able => (kinds.mpr able).2⟩

theorem held_length (readable : ∀ c ∈ relation, Readable s rows c)
    {x : LogicalType × GPUColumn} (member : x ∈ types.zip relation) {host : HostColumn}
    (held : Held cast s x.1 x.2 host) : host.columnLength = rows := by
  obtain ⟨pieces, valid, -, content, hosted⟩ := held
  have length := logical_length content
  rw [hosted.columnLength]
  rw [List.length_map, List.length_range] at length
  rw [length]
  exact (readable _ (List.of_mem_zip member).2).rowCount

theorem Given.noRows {c : GPUColumn} (given : Given s 0 c) : c.rowCount = 0 := by
  obtain readable | ⟨-, none | none⟩ := given
  · exact readable.rowCount
  · exact none
  · exact none

theorem Given.readable {c : GPUColumn} (given : Given s rows c)
    (data : c.dataWrapper.data ≠ none) : Readable s rows c :=
  given.resolve_right fun dataless => data dataless.1

/-- A sink of a relation without rows changes nothing. -/
theorem sink_empty (cast : DecimalCast) (results : GPUResultCollection)
    (count : types.length = relation.length) (columns : relation ≠ [])
    (none : ∀ c ∈ relation, c.rowCount = 0) :
    sink cast types relation ⟨s, results⟩ = (.ok (), ⟨s, results⟩) := by
  obtain ⟨c, rest, rfl⟩ := List.exists_cons_of_ne_nil columns
  obtain ⟨planned, others, rfl⟩ : ∃ planned others, types = planned :: others := by
    cases types with
    | nil => cases count
    | cons planned others => exact ⟨planned, others, rfl⟩
  have collected : onMemory (collectColumns cast ((planned :: others).zip (c :: rest))
      (reserve (c :: rest))) ⟨s, results⟩ = (.ok Option.none, ⟨s, results⟩) := by
    rw [List.zip_cons_cons, collectColumns, if_pos (none c List.mem_cons_self)]
    rfl
  rw [sink, if_neg (by simpa using count), Proc.bind_ok collected]
  rfl

/-- A sink of a relation with a column without data that returns has delivered nothing. -/
theorem sink_dataless {s' : Collector} (dataless : ∃ c ∈ relation, c.dataWrapper.data = none)
    (run : sink cast types relation ⟨s, results⟩ = (.ok (), s')) : s'.results = results := by
  have count : types.length = relation.length := by
    by_contra differ
    rw [sink, if_pos differ] at run
    cases run
  rw [sink, if_neg (by simpa using count)] at run
  obtain ⟨collected, taken, collecting, run⟩ := Proc.bind_inv run
  obtain ⟨run₁, same⟩ := onMemory_inv collecting
  have missing : ∃ x ∈ types.zip relation, x.2.dataWrapper.data = none := by
    obtain ⟨c, member, missing⟩ := dataless
    rw [← zip_snd count] at member
    obtain ⟨x, inside, rfl⟩ := List.mem_map.mp member
    exact ⟨x, inside, missing⟩
  have none := collectColumns_dataless cast missing (reserve relation) s trivial
  rw [run₁] at none
  simp only at none
  subst none
  cases run
  exact same

theorem sink_run (cast : DecimalCast) (results : GPUResultCollection)
    (count : types.length = relation.length) (columns : relation ≠ [])
    (fresh : s.Fresh) (readable : ∀ c ∈ relation, Readable s rows c) (some : rows ≠ 0)
    (accepted : Accepted s types relation) (first : results.writeIdx = 0) :
    ∃ hosts s', sink cast types relation ⟨s, results⟩ = (.ok (), s') ∧
      List.Forall₂ (fun x host => Held cast s x.1 x.2 host) (types.zip relation) hosts ∧
      s'.results.writeIdx = vectors rows ∧ s'.results.readIdx = results.readIdx ∧
      ∀ i < vectors rows, s'.results.dataChunks[i]? = .some (chunkAt types hosts rows i) := by
  have collectable := accepted.collectable count
  obtain ⟨hosts, s₁, run, held⟩ := collectColumns_run cast fresh
    (fun x member => readable _ (List.of_mem_zip member).2) some collectable
  have ready := (held_referable held collectable.each).mpr accepted.planned
  rw [List.map_fst_zip (Nat.le_of_eq count)] at ready
  have collected : onMemory (collectColumns cast (types.zip relation) (reserve relation))
      ⟨s, results⟩ = (.ok (Option.some hosts), ⟨s₁, results⟩) := by
    unfold onMemory
    rw [run]
  have zipped : types.zip relation ≠ [] := by
    intro none
    have length := congrArg List.length none
    rw [List.length_zip, count, Nat.min_self] at length
    exact columns (List.length_eq_zero_iff.mp length)
  obtain ⟨x, xs, same⟩ := List.exists_cons_of_ne_nil zipped
  have heads := held
  rw [same] at heads
  obtain ⟨host, others, head, -, rfl⟩ := List.forall₂_cons_left_iff.mp heads
  have size : host.columnLength = rows :=
    held_length readable (by rw [same]; exact List.mem_cons_self) head
  let capacity : GPUResultCollection := results.setCapacity (vectors rows)
  obtain ⟨results', add, write, read, -, chunks⟩ := addChunks_run ready rows
    (vectors rows) 0 (Nat.zero_add _) capacity (by
      change results.writeIdx + _ ≤ (List.replicate _ _).length
      rw [first, List.length_replicate, Nat.zero_add])
  refine ⟨host :: others, ⟨s₁, results'⟩, ?_, held, ?_, read, ?_⟩
  · rw [sink, if_neg (by simpa using count), Proc.bind_ok collected]
    rw [Nat.zero_mul, Nat.sub_zero] at add
    simp only [size]
    change (onResults (Proc.update (·.setCapacity (vectors rows))) >>= fun _ =>
      onResults (addChunks types (host :: others) (vectors rows) 0 0 rows)) ⟨s₁, results⟩ = _
    have set : onResults (Proc.update (·.setCapacity (vectors rows))) ⟨s₁, results⟩ =
        (.ok (), ⟨s₁, capacity⟩) := rfl
    rw [Proc.bind_ok set]
    unfold onResults
    rw [add]
  · rw [write]
    change results.writeIdx + _ = _
    rw [first, Nat.zero_add]
  · intro i hi
    have filled := chunks i hi
    change results'.dataChunks[results.writeIdx + i]? = _ at filled
    rwa [first, Nat.zero_add] at filled

/-- A sink that returns has taken the relation, and is the first to deliver rows. -/
theorem sink_ok (fresh : s.Fresh) (readable : ∀ c ∈ relation, Readable s rows c)
    (some : rows ≠ 0) {s' : Collector}
    (run : sink cast types relation ⟨s, results⟩ = (.ok (), s')) :
    types.length = relation.length ∧ relation ≠ [] ∧ Accepted s types relation ∧
      results.writeIdx = 0 := by
  have count : types.length = relation.length := by
    by_contra differ
    rw [sink, if_pos differ] at run
    cases run
  rw [sink, if_neg (by simpa using count)] at run
  obtain ⟨collected, taken, collecting, run⟩ := Proc.bind_inv run
  have readable' : ∀ x ∈ types.zip relation, Readable s rows x.2 := fun x member =>
    readable _ (List.of_mem_zip member).2
  obtain ⟨run₁, same⟩ := onMemory_inv collecting
  have filled := collectColumns_some
    (fun x member => by rwa [(readable' x member).rowCount]) run₁
  cases collected with
  | none => exact absurd rfl filled
  | some hosts =>
    have collectable := collectColumns_ok fresh readable' some run₁
    obtain ⟨hosts', s₁, run₂, held⟩ := collectColumns_run cast fresh readable' some
      collectable
    rw [run₁] at run₂
    cases run₂
    cases hosts with
    | nil => cases run
    | cons host others =>
      obtain ⟨x, xs, head, -, zipped⟩ := List.forall₂_cons_right_iff.mp held
      have member : x ∈ types.zip relation := by
        rw [zipped]
        exact List.mem_cons_self
      have size : host.columnLength = rows := held_length readable member head
      obtain ⟨⟨⟩, taken₂, set, add⟩ := Proc.bind_inv run
      have added : addChunks types (host :: others) (vectors host.columnLength) 0 0
          host.columnLength taken₂.results = (.ok (), s'.results) :=
        onResults_inv add
      have capacity : taken₂.results = results.setCapacity (vectors host.columnLength) := by
        have after := congrArg (fun r => r.2.results) set
        have kept : taken.results = results := same
        rw [← kept]
        exact after.symm
      have more : vectors host.columnLength ≠ 0 := by
        rw [size]
        unfold vectors standardVectorSize
        omega
      obtain ⟨ready, room⟩ := addChunks_ok _ _ _ more added
      have fst : types = (types.zip relation).map Prod.fst :=
        (List.map_fst_zip (Nat.le_of_eq count)).symm
      rw [fst] at ready
      have planned := (held_referable held collectable.each).mp ready
      refine ⟨count, ?_, ⟨?_, planned, ?_, ?_, ?_, collectable.fits⟩, ?_⟩
      · rintro rfl
        rw [List.zip_nil_right] at member
        cases member
      · intro c hc missing
        have nonempty := (readable c hc).nonempty some
        rw [isEmptyColumn, missing] at nonempty
        cases nonempty
      · intro c hc
        rw [← zip_snd count] at hc
        obtain ⟨y, hy, rfl⟩ := List.mem_map.mp hc
        exact (collectable.each y hy).known
      · intro c hc
        rw [← zip_snd count] at hc
        obtain ⟨y, hy, rfl⟩ := List.mem_map.mp hc
        exact (collectable.each y hy).near
      · rw [← zip_snd count]
        exact List.pairwise_map.mpr collectable.clear
      · rw [capacity] at room
        change results.writeIdx + _ ≤ (List.replicate _ _).length at room
        rw [List.length_replicate] at room
        omega

/-- The values of a column, row by row. -/
def columnRows (s : State) (c : GPUColumn) : List (Option Value) :=
  ((logical s c).getD []).map (Option.map (valueOf c.type))

/-- The rows of a relation. -/
def relationRows (s : State) (rows : Nat) (relation : GPUIntermediateRelation) :
    List (List (Option Value)) :=
  rowsOf rows (relation.map (columnRows s))

theorem relationRows_length : (relationRows s rows relation).length = rows := by
  rw [relationRows, rowsOf, List.length_map, List.length_range]

def notNull (s : State) (c : GPUColumn) (i : Nat) : Bool :=
  (((logical s c).getD []).getD i none).isSome

/-- When a relation that is taken is delivered as it is: a row's NULL flags are those of the row
at its place in the first vector, and the entries keep their values. -/
structure Shown (s : State) (rows : Nat) (types : List LogicalType)
    (relation : GPUIntermediateRelation) : Prop where
  flags : ∀ c ∈ relation, ∀ i < rows, notNull s c i = notNull s c (i % standardVectorSize)
  values : ∀ x ∈ types.zip relation, ∀ i < rows, ∀ piece,
    ((logical s x.2).getD [])[i]? = some (some piece) →
      KeepsEntry x.1 x.2.type ((rawOf s x.2).getD []) i piece

/-- The cell of a row of a host column. -/
def cellAt (x : LogicalType × HostColumn) (i : Nat) : Option Value :=
  ({ vectorOf x.1 x.2 (i / standardVectorSize) (i / standardVectorSize * standardVectorSize) with
    type := x.1 } : ResultCollector.Vector).cell (i % standardVectorSize)

theorem chunks_rows (hosts : List HostColumn) :
    ((List.range (vectors rows)).map (chunkAt types hosts rows)).flatMap DataChunk.rows =
      (List.range rows).map fun i => (types.zip hosts).map fun x => cellAt x i := by
  have cover : min rows (vectors rows * standardVectorSize) = rows := by
    unfold vectors standardVectorSize
    omega
  have blocks := range_blocks (fun i => (types.zip hosts).map fun x => cellAt x i) rows
    standardVectorSize (vectors rows)
  rw [cover] at blocks
  rw [← blocks, List.flatMap_map]
  apply List.flatMap_congr
  intro vec _
  unfold DataChunk.rows
  apply List.map_congr_left
  intro row hrow
  have small : row < standardVectorSize := by
    have below := List.mem_range.mp hrow
    change row < min _ _ at below
    omega
  have place : (vec * standardVectorSize + row) / standardVectorSize = vec ∧
      (vec * standardVectorSize + row) % standardVectorSize = row := by
    unfold standardVectorSize at *
    omega
  simp only [chunkAt, List.map_map, cellAt, place]
  rfl

theorem held_widths {c : GPUColumn} {pieces : List Bytes}
    (raw : rawOf s c = some pieces) (fixed : c.type ≠ .varchar) :
    ∀ piece ∈ pieces, piece.length = getColumnTypeSize c.type := by
  obtain ⟨b, found, rowIds, ids, rfl⟩ : ∃ b, baseOf s c = some b ∧
      ∃ rowIds, idsOf s c = some rowIds ∧ rowIds.map b.bits = pieces := by
    simpa [rawOf, Option.bind_eq_some_iff] using raw
  obtain ⟨-, -, -, sound⟩ := baseOf_iff.mp found
  intro piece member
  obtain ⟨i, hi, rfl⟩ := List.mem_map.mp member
  rw [sound.bits_length (idsOf_mem ids i hi), fixed_start found fixed]
  change (i + 1) * _ - i * _ = _
  rw [Nat.add_one_mul, Nat.add_sub_cancel_left]

/-- A row's cell is its value if the flag at its place in the first vector is its own, and its
value is kept. -/
theorem cell_eq_iff (exact : ExactCast cast) {planned : LogicalType} {c : GPUColumn}
    {host : HostColumn} (ready : deliverable planned c.type = true)
    (held : Held cast s planned c host) (count : c.rowCount = rows) :
    (∀ i < rows, cellAt (planned, host) i = (columnRows s c).getD i none) ↔
      (∀ i < rows, notNull s c i = notNull s c (i % standardVectorSize)) ∧
      ∀ i < rows, ∀ piece, ((logical s c).getD [])[i]? = some (some piece) →
        KeepsEntry planned c.type ((rawOf s c).getD []) i piece := by
  obtain ⟨pieces, valid, raw, content, hosted⟩ := held
  have length : pieces.length = rows := by
    have length := logical_length content
    rw [List.length_map, List.length_range] at length
    rw [length, count]
  have entry : ∀ i < rows, ((logical s c).getD [])[i]? =
      some (if valid i then pieces[i]? else none) := by
    intro i hi
    simp [content, length, hi]
  have flag : ∀ i < rows, notNull s c i = valid i := by
    intro i hi
    have inside : i < pieces.length := by rwa [length]
    rw [notNull, List.getD_eq_getElem?_getD, entry i hi]
    cases valid i <;> simp [inside]
  have cell : ∀ i < rows, cellAt (planned, host) i =
      if valid (i % standardVectorSize) then some (shown cast planned c.type pieces i)
      else none := by
    intro i hi
    have split : i / standardVectorSize * standardVectorSize + i % standardVectorSize = i :=
      Nat.div_add_mod' i standardVectorSize
    have shows := cell_vectorOf hosted (i / standardVectorSize)
      (i % standardVectorSize) (by rw [split, length]; exact hi)
      (Nat.mod_lt i (by decide))
    rw [split] at shows
    exact shows
  have own : ∀ i < rows, (columnRows s c).getD i none =
      if valid i then some (valueOf c.type (pieces.getD i [])) else none := by
    intro i hi
    have inside : i < pieces.length := by rwa [length]
    rw [columnRows, List.getD_eq_getElem?_getD, List.getElem?_map, entry i hi]
    cases valid i <;> simp [inside]
  have keeps : ∀ i < rows, (shown cast planned c.type pieces i =
      valueOf c.type (pieces.getD i []) ↔
        KeepsEntry planned c.type ((rawOf s c).getD []) i (pieces.getD i [])) := by
    intro i hi
    have inside : i < pieces.length := by rwa [length]
    have same : pieces.getD i [] = pieces[i] := by simp [inside]
    rw [same, raw]
    exact shown_eq_iff inside exact ready fun fixed => held_widths raw fixed
  have near : ∀ i < rows, i % standardVectorSize < rows := fun i hi =>
    Nat.lt_of_le_of_lt (Nat.mod_le i _) hi
  constructor
  · intro cells
    have flags : ∀ i < rows, valid i = valid (i % standardVectorSize) := by
      intro i hi
      have equal := cells i hi
      rw [cell i hi, own i hi] at equal
      cases here : valid i <;> cases first : valid (i % standardVectorSize) <;>
        simp [here, first] at equal ⊢
    refine ⟨fun i hi => ?_, fun i hi piece found => ?_⟩
    · rw [flag i hi, flag _ (near i hi)]
      exact flags i hi
    · rw [entry i hi] at found
      have inside : i < pieces.length := by rwa [length]
      have isValid : valid i = true := by
        by_contra invalid
        simp [invalid] at found
      have same : pieces.getD i [] = piece := by
        simpa [isValid, inside] using found
      have equal := cells i hi
      rw [cell i hi, own i hi, ← flags i hi, if_pos isValid, if_pos isValid] at equal
      rw [← same]
      exact (keeps i hi).mp (Option.some.inj equal)
  · rintro ⟨flags, values⟩ i hi
    have same := flags i hi
    rw [flag i hi, flag _ (near i hi)] at same
    rw [cell i hi, own i hi, ← same]
    by_cases isValid : valid i = true
    · have inside : i < pieces.length := by rwa [length]
      rw [if_pos isValid, if_pos isValid]
      congr 1
      apply (keeps i hi).mpr
      apply values i hi
      rw [entry i hi, if_pos isValid]
      simp [inside]
    · rw [if_neg isValid, if_neg isValid]

theorem zip_map_eq_iff {columns : List (LogicalType × GPUColumn)} {hosts : List HostColumn}
    (size : columns.length = hosts.length) {β : Type} (f : LogicalType × HostColumn → β)
    (g : GPUColumn → β) :
    ((columns.map Prod.fst).zip hosts).map f = (columns.map Prod.snd).map g ↔
      ∀ x ∈ columns.zip hosts, f (x.1.1, x.2) = g x.1.2 := by
  induction columns generalizing hosts with
  | nil =>
    cases hosts with
    | nil => simp
    | cons host rest => cases size
  | cons x columns ih =>
    cases hosts with
    | nil => cases size
    | cons host rest =>
      have later := ih (Nat.succ.inj size)
      simp only [List.map_cons, List.zip_cons_cons, List.cons.injEq, later, List.forall_mem_cons]

/-- The chunks of a sink have the rows of the relation exactly when the relation is shown. -/
theorem delivered_iff (exact : ExactCast cast) (count : types.length = relation.length)
    (readable : ∀ c ∈ relation, Readable s rows c)
    (planned : ∀ x ∈ types.zip relation, deliverable x.1 x.2.type = true)
    {hosts : List HostColumn}
    (held : List.Forall₂ (fun x host => Held cast s x.1 x.2 host) (types.zip relation) hosts) :
    ((List.range (vectors rows)).map (chunkAt types hosts rows)).flatMap DataChunk.rows =
      relationRows s rows relation ↔ Shown s rows types relation := by
  have size := held.length_eq
  have fst : types = (types.zip relation).map Prod.fst :=
    (List.map_fst_zip (Nat.le_of_eq count)).symm
  have rowwise : (∀ i < rows, ((types.zip hosts).map fun x => cellAt x i) =
      relation.map fun c => (columnRows s c).getD i none) ↔
      ∀ x ∈ (types.zip relation).zip hosts, ∀ i < rows,
        cellAt (x.1.1, x.2) i = (columnRows s x.1.2).getD i none := by
    have aligned : ∀ i, ((types.zip hosts).map fun x => cellAt x i) =
        relation.map (fun c => (columnRows s c).getD i none) ↔
          ∀ x ∈ (types.zip relation).zip hosts,
            cellAt (x.1.1, x.2) i = (columnRows s x.1.2).getD i none := by
      intro i
      have rows := zip_map_eq_iff size (cellAt · i) fun c => (columnRows s c).getD i none
      rwa [← fst, zip_snd count] at rows
    constructor
    · intro rows x member i hi
      exact (aligned i).mp (rows i hi) x member
    · intro cells i hi
      exact (aligned i).mpr fun x member => cells x member i hi
  have columnwise : ∀ x ∈ (types.zip relation).zip hosts,
      ((∀ i < rows, cellAt (x.1.1, x.2) i = (columnRows s x.1.2).getD i none) ↔
        (∀ i < rows, notNull s x.1.2 i = notNull s x.1.2 (i % standardVectorSize)) ∧
        ∀ i < rows, ∀ piece, ((logical s x.1.2).getD [])[i]? = some (some piece) →
          KeepsEntry x.1.1 x.1.2.type ((rawOf s x.1.2).getD []) i piece) := by
    rintro ⟨x, host⟩ member
    have inside := (List.of_mem_zip member).1
    exact cell_eq_iff exact (planned x inside) ((List.forall₂_iff_zip.mp held).2 member)
      (readable _ (List.of_mem_zip inside).2).rowCount
  have covered : ∀ x ∈ types.zip relation, ∃ host, (x, host) ∈ (types.zip relation).zip hosts := by
    intro x member
    rw [← List.map_fst_zip (Nat.le_of_eq size)] at member
    obtain ⟨⟨y, host⟩, paired, rfl⟩ := List.mem_map.mp member
    exact ⟨host, paired⟩
  rw [chunks_rows, relationRows, rowsOf]
  simp only [List.map_map]
  rw [List.map_inj_left]
  simp only [List.mem_range, Function.comp_def]
  rw [rowwise]
  constructor
  · intro cells
    constructor
    · intro c hc
      rw [← zip_snd count] at hc
      obtain ⟨x, member, rfl⟩ := List.mem_map.mp hc
      obtain ⟨host, paired⟩ := covered x member
      exact ((columnwise _ paired).mp (cells _ paired)).1
    · intro x member
      obtain ⟨host, paired⟩ := covered x member
      exact ((columnwise _ paired).mp (cells _ paired)).2
  · rintro ⟨flags, values⟩ x paired
    have member := (List.of_mem_zip paired).1
    exact (columnwise _ paired).mpr ⟨flags _ (List.of_mem_zip member).2, values _ member⟩

/-- What the chunks fetched after one sink are to be. -/
def Delivers (cast : DecimalCast) (types : List LogicalType) (s : State) (rows : Nat)
    (relation : GPUIntermediateRelation) : Prop :=
  ∃ c chunks, sink cast types relation ⟨s, .empty⟩ = (.ok (), c) ∧
    GPUResultCollection.Fetched c.results chunks ∧
    chunks.flatMap DataChunk.rows = relationRows s rows relation

theorem sink_columns {s' : Collector}
    (run : sink cast types relation ⟨s, results⟩ = (.ok (), s')) :
    types.length = relation.length ∧ relation ≠ [] := by
  have count : types.length = relation.length := by
    by_contra differ
    rw [sink, if_pos differ] at run
    cases run
  refine ⟨count, ?_⟩
  rintro rfl
  rw [sink, if_neg (by simpa using count), List.zip_nil_right] at run
  cases run

theorem fetched_none (first : results.writeIdx = 0) : GPUResultCollection.Fetched results [] :=
  .done (if_pos (by omega))

/-- The chunks of a sink into an empty collection. -/
theorem fetched_sink {hosts : List HostColumn} (write : results.writeIdx = vectors rows)
    (read : results.readIdx = 0)
    (filled : ∀ i < vectors rows, results.dataChunks[i]? = some (chunkAt types hosts rows i)) :
    GPUResultCollection.Fetched results
      ((List.range (vectors rows)).map (chunkAt types hosts rows)) := by
  apply fetched_chunks
  · rw [write, read, Nat.zero_add]
  · intro i hi
    rw [read, Nat.zero_add, filled i hi]

theorem delivers_ok (exact : ExactCast cast) (fresh : s.Fresh)
    (readable : ∀ c ∈ relation, Readable s rows c) (some : rows ≠ 0)
    (delivers : Delivers cast types s rows relation) :
    Accepted s types relation ∧ Shown s rows types relation := by
  obtain ⟨c, chunks, run, fetched, same⟩ := delivers
  obtain ⟨count, columns, accepted, -⟩ := sink_ok fresh readable some run
  obtain ⟨hosts, c', run', held, write, read, filled⟩ :=
    sink_run cast .empty count columns fresh readable some accepted rfl
  rw [run] at run'
  cases run'
  rw [fetched_unique fetched (fetched_sink write read filled)] at same
  exact ⟨accepted, (delivered_iff exact count readable accepted.planned held).mp same⟩

theorem delivers_run (exact : ExactCast cast) (fresh : s.Fresh)
    (readable : ∀ c ∈ relation, Readable s rows c) (count : types.length = relation.length)
    (columns : relation ≠ []) (some : rows ≠ 0) (accepted : Accepted s types relation)
    (shown : Shown s rows types relation) : Delivers cast types s rows relation := by
  obtain ⟨hosts, c, run, held, write, read, filled⟩ :=
    sink_run cast .empty count columns fresh readable some accepted rfl
  exact ⟨c, _, run, fetched_sink write read filled,
    (delivered_iff exact count readable accepted.planned held).mpr shown⟩

end Delivery

section Cached

/-- Memory with an integer column's data and its mask in the caching region. -/
def cached (data : Bytes) (mask : List MaskWord) : State where
  contents := fun h =>
    if h = .caching 0 then some (.bytes data)
    else if h = .caching 1 then some (.bits mask) else none
  allocationTable := []
  lockedAllocationTable := []
  rmmStoredBuffers := []
  next := 0

def cachedColumn (count : Nat) : GPUColumn :=
  newColumn count .int32 (some (.caching 0)) (some (.caching 1))

variable {data : Bytes} {mask : List MaskWord} {count : Nat}

theorem cached_fresh : (cached data mask).Fresh := by
  constructor
  · rintro h ⟨n, -, rfl⟩
    rfl
  · rintro h ⟨n, -, rfl⟩ known
    simp [State.Known, cached] at known
  · intro n
    simp [cached]

theorem cached_base (room : count * 4 ≤ data.length) :
    baseOf (cached data mask) (cachedColumn count) = some ⟨data, fun i => i * 4, some mask⟩ := by
  refine baseOf_iff.mpr ⟨⟨.caching 0, rfl, rfl⟩, rfl, rfl, ?_, room⟩
  intro i _
  exact Nat.mul_le_mul_right 4 (Nat.le_succ i)

theorem cached_readable (room : count * 4 ≤ data.length) :
    ∀ c ∈ [cachedColumn count], Readable (cached data mask) count c := by
  intro c member
  obtain rfl := List.mem_singleton.mp member
  exact ⟨⟨_, logical_of_base rfl (cached_base room)⟩, rfl, fun string => by cases string⟩

theorem cached_given (room : count * 4 ≤ data.length) :
    ∀ c ∈ [cachedColumn count], Given (cached data mask) count c :=
  fun c member => .inl (cached_readable room c member)

theorem cached_notNull (room : count * 4 ≤ data.length) {i : Nat} (hi : i < count) :
    notNull (cached data mask) (cachedColumn count) i = maskBit (some mask) i := by
  have content := logical_of_base (s := cached data mask) (c := cachedColumn count) rfl
    (cached_base room)
  have length : (cachedColumn count).columnLength = count := rfl
  rw [notNull, content, length]
  simp only [Option.getD_some, List.getD_eq_getElem?_getD, List.getElem?_map,
    List.getElem?_range hi, Option.map_some, Base.entry]
  cases maskBit (some mask) i <;> rfl

theorem cached_accepted : Accepted (cached data mask) [.integer] [cachedColumn count] := by
  constructor
  · intro c member
    obtain rfl := List.mem_singleton.mp member
    exact Option.some_ne_none _
  · intro x member
    obtain rfl := List.mem_singleton.mp member
    rfl
  · intro c member h consumed
    obtain rfl := List.mem_singleton.mp member
    exact absurd rfl consumed.1
  · intro c member string
    obtain rfl := List.mem_singleton.mp member
    cases string
  · exact List.pairwise_singleton _ _
  · exact ⟨Nat.le_refl _, Nat.le_refl _⟩

theorem cached_shown (room : count * 4 ≤ data.length)
    (flags : ∀ i < count, maskBit (some mask) i = maskBit (some mask) (i % standardVectorSize)) :
    Shown (cached data mask) count [.integer] [cachedColumn count] := by
  constructor
  · intro c member i hi
    obtain rfl := List.mem_singleton.mp member
    have near : i % standardVectorSize < count := Nat.lt_of_le_of_lt (Nat.mod_le i _) hi
    rw [cached_notNull room hi, cached_notNull room near]
    exact flags i hi
  · intro x member i _ piece _
    obtain rfl := List.mem_singleton.mp member
    trivial

end Cached

section OneSink

variable {cast : DecimalCast} {types : List LogicalType} {relation : GPUIntermediateRelation}
  {s : State} {rows : Nat}

/-- A column of 2049 rows of which only the first is NULL. -/
def longMemory : State :=
  cached (List.replicate 8196 0) (0xFFFFFFFE#32 :: List.replicate 64 0xFFFFFFFF#32)

theorem longMemory_readable :
    ∀ c ∈ [cachedColumn 2049], Readable longMemory 2049 c := by
  apply cached_readable
  rw [List.length_replicate]

end OneSink

section Sinks

variable {cast : DecimalCast} {types : List LogicalType} {results : GPUResultCollection}

/-- A relation that is sunk, in the memory its pipeline has left. -/
structure Sunk where
  memory : State
  rows : Nat
  relation : GPUIntermediateRelation
  fresh : memory.Fresh
  given : ∀ c ∈ relation, Given memory rows c

def sinkInto (cast : DecimalCast) (types : List LogicalType) (x : Sunk) :
    Proc GPUResultCollection Exception Unit := fun results =>
  ((sink cast types x.relation ⟨x.memory, results⟩).1,
    (sink cast types x.relation ⟨x.memory, results⟩).2.results)

def Sunk.Columns (types : List LogicalType) (x : Sunk) : Prop :=
  types.length = x.relation.length ∧ x.relation ≠ []

def Sunk.Delivered (types : List LogicalType) (x : Sunk) : Prop :=
  Accepted x.memory types x.relation ∧ Shown x.memory x.rows types x.relation

/-- Nothing of the relation is delivered: it has no rows, or a column has no data. -/
def Sunk.Silent (x : Sunk) : Prop :=
  x.rows = 0 ∨ ∃ c ∈ x.relation, c.dataWrapper.data = none

def Sunk.relationRows (x : Sunk) : List (List (Option Value)) :=
  ResultDelivery.relationRows x.memory x.rows x.relation

theorem Sunk.relationRows_empty {x : Sunk} (none : x.rows = 0) : x.relationRows = [] := by
  rw [Sunk.relationRows, ResultDelivery.relationRows, none]
  rfl

theorem Sunk.readable {x : Sunk} (data : ∀ c ∈ x.relation, c.dataWrapper.data ≠ none) :
    ∀ c ∈ x.relation, Readable x.memory x.rows c :=
  fun c member => (x.given c member).readable (data c member)

theorem rows_length (xs : List Sunk) :
    (xs.flatMap Sunk.relationRows).length = (xs.map (·.rows)).sum := by
  rw [List.length_flatMap]
  congr 1
  exact List.map_congr_left fun x _ => relationRows_length

theorem sinkInto_inv {x : Sunk} {results' : GPUResultCollection}
    (run : sinkInto cast types x results = (.ok (), results')) :
    ∃ c, sink cast types x.relation ⟨x.memory, results⟩ = (.ok (), c) ∧ c.results = results' := by
  rcases sunk : sink cast types x.relation ⟨x.memory, results⟩ with ⟨result, c⟩
  rw [sinkInto, sunk] at run
  obtain ⟨rfl, rfl⟩ := Prod.mk.inj run
  exact ⟨c, rfl, rfl⟩

theorem sinkInto_silent {x : Sunk} (silent : x.Silent) {results' : GPUResultCollection}
    (run : sinkInto cast types x results = (.ok (), results')) :
    x.Columns types ∧ results' = results := by
  obtain ⟨c, sunk, rfl⟩ := sinkInto_inv run
  have columns := sink_columns sunk
  refine ⟨columns, ?_⟩
  rcases silent with none | dataless
  · have given : ∀ c ∈ x.relation, Given x.memory 0 c := none ▸ x.given
    have same : sink cast types x.relation ⟨x.memory, results⟩ = _ :=
      sink_empty cast results columns.1 columns.2 fun c member => (given c member).noRows
    rw [sunk] at same
    exact congrArg (·.2.results) same
  · exact sink_dataless dataless sunk

theorem sinkInto_empty {x : Sunk} (none : x.rows = 0) (columns : x.Columns types) :
    sinkInto cast types x results = (.ok (), results) := by
  have given : ∀ c ∈ x.relation, Given x.memory 0 c := none ▸ x.given
  rw [sinkInto, sink_empty cast results columns.1 columns.2 fun c member => (given c member).noRows]

theorem sinkInto_ok {x : Sunk} (loud : ¬ x.Silent) {results' : GPUResultCollection}
    (run : sinkInto cast types x results = (.ok (), results')) :
    x.Columns types ∧ Accepted x.memory types x.relation ∧ results.writeIdx = 0 := by
  rw [Sunk.Silent] at loud
  push Not at loud
  obtain ⟨c, sunk, -⟩ := sinkInto_inv run
  obtain ⟨count, columns, accepted, first⟩ :=
    sink_ok x.fresh (Sunk.readable loud.2) loud.1 sunk
  exact ⟨⟨count, columns⟩, accepted, first⟩

theorem sinkInto_run (cast : DecimalCast) {x : Sunk} (columns : x.Columns types) (some : x.rows ≠ 0)
    (accepted : Accepted x.memory types x.relation) (first : results.writeIdx = 0) :
    ∃ hosts results', sinkInto cast types x results = (.ok (), results') ∧
      List.Forall₂ (fun y host => Held cast x.memory y.1 y.2 host) (types.zip x.relation) hosts ∧
      results'.writeIdx = vectors x.rows ∧ results'.readIdx = results.readIdx ∧
      ∀ i < vectors x.rows, results'.dataChunks[i]? = .some (chunkAt types hosts x.rows i) := by
  obtain ⟨hosts, c, run, held, write, read, filled⟩ :=
    sink_run cast results columns.1 columns.2 x.fresh (Sunk.readable accepted.data) some accepted
      first
  exact ⟨hosts, c.results, by rw [sinkInto, run], held, write, read, filled⟩

theorem vectors_some {rows : Nat} (some : rows ≠ 0) : vectors rows ≠ 0 := by
  unfold vectors standardVectorSize
  omega

/-- After rows have been delivered only relations of which nothing is delivered may follow. -/
theorem sinks_after (full : results.writeIdx ≠ 0) {xs : List Sunk} {results' : GPUResultCollection}
    (run : Proc.each (sinkInto cast types) xs results = (.ok (), results')) :
    (∀ x ∈ xs, x.Columns types) ∧ results' = results := by
  induction xs with
  | nil =>
    cases run
    exact ⟨by simp, rfl⟩
  | cons x xs ih =>
    rw [Proc.each_cons] at run
    obtain ⟨⟨⟩, results₁, first, rest⟩ := Proc.bind_inv run
    by_cases silent : x.Silent
    · obtain ⟨columns, rfl⟩ := sinkInto_silent silent first
      obtain ⟨others, same⟩ := ih rest
      exact ⟨List.forall_mem_cons.mpr ⟨columns, others⟩, same⟩
    · exact absurd (sinkInto_ok silent first).2.2 full

theorem sinks_empty {xs : List Sunk} (all : ∀ x ∈ xs, x.Columns types ∧ x.rows = 0) :
    Proc.each (sinkInto cast types) xs results = (.ok (), results) := by
  induction xs with
  | nil => rfl
  | cons x xs ih =>
    obtain ⟨⟨columns, none⟩, others⟩ := List.forall_mem_cons.mp all
    rw [Proc.each_cons, Proc.bind_ok (sinkInto_empty none columns)]
    exact ih others

theorem chunks_length (hosts : List HostColumn) (rows : Nat) :
    (((List.range (vectors rows)).map (chunkAt types hosts rows)).flatMap DataChunk.rows).length =
      rows := by
  rw [chunks_rows, List.length_map, List.length_range]

/-- No more rows are fetched than have been sunk. -/
theorem fetched_length (first : results.writeIdx = 0) (read : results.readIdx = 0) {xs : List Sunk}
    {results' : GPUResultCollection} {chunks : List DataChunk}
    (run : Proc.each (sinkInto cast types) xs results = (.ok (), results'))
    (fetched : GPUResultCollection.Fetched results' chunks) :
    (chunks.flatMap DataChunk.rows).length ≤ (xs.map (·.rows)).sum := by
  induction xs with
  | nil =>
    cases run
    rw [fetched_unique fetched (fetched_none first)]
    exact Nat.le_refl 0
  | cons x xs ih =>
    rw [Proc.each_cons] at run
    obtain ⟨⟨⟩, results₁, run₁, rest⟩ := Proc.bind_inv run
    rw [List.map_cons, List.sum_cons]
    by_cases silent : x.Silent
    · obtain ⟨-, rfl⟩ := sinkInto_silent silent run₁
      exact (ih rest).trans (Nat.le_add_left _ _)
    · have some : x.rows ≠ 0 := fun none => silent (.inl none)
      obtain ⟨columns, accepted, -⟩ := sinkInto_ok silent run₁
      obtain ⟨hosts, results₂, run₂, -, write, read', filled⟩ :=
        sinkInto_run cast columns some accepted first
      rw [run₁] at run₂
      cases run₂
      have full : results₁.writeIdx ≠ 0 := by
        rw [write]
        exact vectors_some some
      obtain ⟨-, rfl⟩ := sinks_after full rest
      rw [fetched_unique fetched (fetched_sink write (read'.trans read) filled), chunks_length]
      exact Nat.le_add_right _ _

/-- What the chunks fetched after several sinks are to be. -/
def DeliversAll (cast : DecimalCast) (types : List LogicalType) (xs : List Sunk)
    (results : GPUResultCollection) : Prop :=
  ∃ results' chunks, Proc.each (sinkInto cast types) xs results = (.ok (), results') ∧
    GPUResultCollection.Fetched results' chunks ∧
    chunks.flatMap DataChunk.rows = xs.flatMap Sunk.relationRows

/-- At most one of the relations has rows. -/
def OneWithRows (xs : List Sunk) : Prop := (xs.filter fun x => x.rows ≠ 0).length ≤ 1

instance (xs : List Sunk) : Decidable (OneWithRows xs) := Nat.decLe _ _

/-- The rows of a relation with a column without data are missing in the end. -/
theorem not_deliversAll_dataless (first : results.writeIdx = 0) (read : results.readIdx = 0)
    {x : Sunk} (some : x.rows ≠ 0) (dataless : ∃ c ∈ x.relation, c.dataWrapper.data = none)
    (xs : List Sunk) : ¬ DeliversAll cast types (x :: xs) results := by
  rintro ⟨results', chunks, run, fetched, same⟩
  rw [Proc.each_cons] at run
  obtain ⟨⟨⟩, results₁, run₁, rest⟩ := Proc.bind_inv run
  obtain ⟨-, rfl⟩ := sinkInto_silent (.inr dataless) run₁
  have less := fetched_length first read rest fetched
  rw [same, rows_length, List.map_cons, List.sum_cons] at less
  omega

theorem deliversAll_iff (exact : ExactCast cast) (first : results.writeIdx = 0)
    (read : results.readIdx = 0) (xs : List Sunk) :
    DeliversAll cast types xs results ↔ (∀ x ∈ xs, x.Columns types) ∧ OneWithRows xs ∧
      ∀ x ∈ xs, x.rows ≠ 0 → x.Delivered types := by
  induction xs with
  | nil =>
    refine iff_of_true ⟨results, [], rfl, fetched_none first, rfl⟩ ⟨by simp, ?_, by simp⟩
    exact Nat.zero_le _
  | cons x xs ih =>
    by_cases none : x.rows = 0
    · have skip : DeliversAll cast types (x :: xs) results ↔
          x.Columns types ∧ DeliversAll cast types xs results := by
        unfold DeliversAll
        rw [List.flatMap_cons, Sunk.relationRows_empty none, List.nil_append, Proc.each_cons]
        constructor
        · rintro ⟨results', chunks, run, fetched⟩
          obtain ⟨⟨⟩, results₁, first, rest⟩ := Proc.bind_inv run
          obtain ⟨columns, rfl⟩ := sinkInto_silent (.inl none) first
          exact ⟨columns, results', chunks, rest, fetched⟩
        · rintro ⟨columns, results', chunks, rest, fetched⟩
          refine ⟨results', chunks, ?_, fetched⟩
          rw [Proc.bind_ok (sinkInto_empty none columns)]
          exact rest
      rw [skip, ih]
      simp [OneWithRows, none, and_assoc]
    by_cases dataless : ∃ c ∈ x.relation, c.dataWrapper.data = .none
    · refine iff_of_false (not_deliversAll_dataless first read none dataless xs) ?_
      rintro ⟨-, -, delivered⟩
      obtain ⟨c, member, missing⟩ := dataless
      exact (delivered x List.mem_cons_self none).1.data c member missing
    · have loud : ¬ x.Silent := by rintro (empty | missing) <;> contradiction
      have only : OneWithRows (x :: xs) ↔ ∀ y ∈ xs, y.rows = 0 := by
        simp [OneWithRows, none, List.filter_eq_nil_iff]
      have others (empty : ∀ y ∈ xs, y.rows = 0) : xs.flatMap Sunk.relationRows = [] :=
        List.flatMap_eq_nil_iff.mpr fun y hy => Sunk.relationRows_empty (empty y hy)
      constructor
      · rintro ⟨results', chunks, run, fetched, same⟩
        rw [Proc.each_cons] at run
        obtain ⟨⟨⟩, results₁, run₁, rest⟩ := Proc.bind_inv run
        obtain ⟨columns, accepted, -⟩ := sinkInto_ok loud run₁
        obtain ⟨hosts, results₂, run₂, held, write, read', filled⟩ :=
          sinkInto_run cast columns none accepted first
        rw [run₁] at run₂
        cases run₂
        have full : results₁.writeIdx ≠ 0 := by
          rw [write]
          exact vectors_some none
        obtain ⟨columns', rfl⟩ := sinks_after full rest
        have start : results'.readIdx = 0 := read'.trans read
        rw [fetched_unique fetched (fetched_sink write start filled)] at same
        have empty : ∀ y ∈ xs, y.rows = 0 := by
          have length := congrArg List.length same
          rw [chunks_length, rows_length, List.map_cons, List.sum_cons] at length
          intro y hy
          have part := List.le_sum_of_mem (List.mem_map_of_mem (f := (·.rows)) hy)
          omega
        rw [List.flatMap_cons, others empty, List.append_nil] at same
        have shown :=
          (delivered_iff exact columns.1 (Sunk.readable accepted.data)
            accepted.planned held).mp same
        exact ⟨List.forall_mem_cons.mpr ⟨columns, columns'⟩, only.mpr empty,
          List.forall_mem_cons.mpr
            ⟨fun _ => ⟨accepted, shown⟩, fun y hy some => absurd (empty y hy) some⟩⟩
      · rintro ⟨columns, one, delivered⟩
        obtain ⟨columns, columns'⟩ := List.forall_mem_cons.mp columns
        have empty := only.mp one
        obtain ⟨accepted, shown⟩ := delivered x List.mem_cons_self none
        obtain ⟨hosts, results₁, run, held, write, read', filled⟩ :=
          sinkInto_run cast columns none accepted first
        have start : results₁.readIdx = 0 := read'.trans read
        refine ⟨results₁, _, ?_, fetched_sink write start filled, ?_⟩
        · rw [Proc.each_cons, Proc.bind_ok run]
          exact sinks_empty fun y hy => ⟨columns' y hy, empty y hy⟩
        · rw [List.flatMap_cons, others empty, List.append_nil]
          exact (delivered_iff exact columns.1 (Sunk.readable accepted.data) accepted.planned
            held).mpr shown

def sunkRow : Sunk where
  memory := cached [7, 0, 0, 0] [1]
  rows := 1
  relation := [cachedColumn 1]
  fresh := cached_fresh
  given := cached_given (by decide)

/-- What `GetData` of a RIGHT join hands on if no row of its build side is left. -/
def sunkNothing : Sunk where
  memory := cached [] []
  rows := 0
  relation := [newColumn 0 .int64 none none]
  fresh := cached_fresh
  given := fun c member => by
    obtain rfl := List.mem_singleton.mp member
    exact .inr ⟨rfl, .inl rfl⟩

end Sinks

end ResultDelivery
