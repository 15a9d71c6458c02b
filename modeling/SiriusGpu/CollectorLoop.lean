import SiriusGpu.HostColumns

/-!
# The loop of the collector

The columns are collected one after another. Each may free what a later one is
read from, so that the loop returns exactly when they are clear of each other and
each can be collected.
-/

namespace CollectorLoop

open ThrowingState GpuMemory GpuColumns Materialize ResultCollector HostColumns

section Loop

/-- A column of a relation of `rows` rows that may be read. -/
structure Readable (s : State) (rows : Nat) (c : GPUColumn) : Prop where
  content : ∃ values, logical s c = some values
  rowCount : c.rowCount = rows
  chars : c.type = .varchar → rows ≠ 0 → c.rowIds = none → CountsChars s c

/-- The room a column takes once its rows are gathered. -/
def needs (s : State) (c : GPUColumn) : Room :=
  if c.type = .varchar then
    ⟨c.rowCount, if c.rowIds = none then c.dataWrapper.numBytes
      else ((rawOf s c).getD []).flatten.length⟩
  else ⟨0, 0⟩

structure Collectable (s : State) (planned : LogicalType) (c : GPUColumn) : Prop where
  type : finalMaterializable c.type = true
  converted : c.type ≠ .varchar → convertible planned c.type = true
  known : ∀ h, Consumed c h → s.Known h
  near : c.type = .varchar → c.rowCount ≤ 2 ^ 32

/-- The host column holds the content the column has in a state. -/
def Held (cast : DecimalCast) (s : State) (planned : LogicalType) (c : GPUColumn)
    (host : HostColumn) : Prop :=
  ∃ pieces valid, rawOf s c = some pieces ∧
    logical s c = some ((List.range pieces.length).map fun i =>
      if valid i then pieces[i]? else none) ∧
    Hosted cast planned c.type pieces valid host

def collectStep (cast : DecimalCast) (planned : LogicalType) (c : GPUColumn) (room : Room) :
    Action (HostColumn × Room) :=
  finalMaterialize c >>= fun m => toHost cast planned m room

variable {cast : DecimalCast} {planned : LogicalType} {s s' : State} {c : GPUColumn} {rows : Nat}
  {room : Room}

theorem Collectable.reached (ready : Collectable s planned c) : Reached (marked c) := by
  intro string late
  have near := ready.near string
  obtain ⟨r, here⟩ := Option.ne_none_iff_exists'.mp late
  have here' : c.rowIds = some r := here
  rwa [GPUColumn.rowCount, here'] at near

theorem Readable.nonempty (readable : Readable s rows c) (some : rows ≠ 0) :
    isEmptyColumn c = false := by
  obtain ⟨values, content⟩ := readable.content
  have count : c.rowCount ≠ 0 := by rwa [readable.rowCount]
  simpa [← isEmptyColumn_iff_of_logical content] using count

/-- The column materialized, as the copies find it. -/
theorem materialized_base {m : GPUColumn} {values : List (Option Bytes)}
    (made : Materialized s s' (marked c) m values) (count : c.rowCount ≠ 0)
    (content : logical s c = some values) :
    ∃ b, baseOf s' m = some b ∧ rawOf s c = some (entriesOf b m) ∧
      logical s c = some ((List.range (entriesOf b m).length).map fun i =>
        if maskBit b.mask i then (entriesOf b m)[i]? else none) := by
  have length : m.rowCount = c.rowCount := by
    rw [GPUColumn.rowCount, made.rowIds, ← logical_length content]
    exact made.columnLength
  obtain ⟨b, -, found, -⟩ := (logical_iff (by rwa [length])).mp made.content
  have raw : rawOf s c = rawOf s' m := (made.raw count).symm
  refine ⟨b, found, raw.trans (rawOf_of_base made.rowIds found), ?_⟩
  have entries := made.content.symm.trans (logical_of_base made.rowIds found)
  rw [content, entries, entriesOf_length]
  congr 1
  apply List.map_congr_left
  intro i hi
  have inside : i < m.columnLength := List.mem_range.mp hi
  simp [Base.entry, entriesOf, inside]

theorem materialized_chars {m : GPUColumn} {values : List (Option Bytes)}
    (made : Materialized s s' (marked c) m values) (readable : Readable s rows c)
    (some : rows ≠ 0) (string : c.type = .varchar) :
    CountsChars s' m ∧ m.dataWrapper.numBytes = (needs s c).chars := by
  have count : (marked c).rowCount ≠ 0 := by
    have := readable.rowCount
    rwa [← this] at some
  have bytes := made.numBytes string rfl count
  by_cases direct : c.rowIds = none
  · rw [if_pos (show (marked c).rowIds = none from direct)] at bytes
    obtain ⟨b, found, last, inside⟩ := readable.chars string some direct
    obtain ⟨same, length⟩ := made.shared direct count
    have bytes' : m.dataWrapper.numBytes = c.dataWrapper.numBytes := bytes
    have length' : m.columnLength = c.columnLength := length
    refine ⟨⟨b, same.trans found, ?_, ?_⟩, ?_⟩
    · rw [bytes', length']
      exact last
    · rw [bytes']
      exact inside
    · rw [bytes', needs, if_pos string]
      simp [direct]
  · rw [if_neg (show (marked c).rowIds ≠ none from direct)] at bytes
    obtain ⟨b, pieces, found, raw, size, last, all⟩ := bytes
    refine ⟨⟨b, found, ?_, ?_⟩, ?_⟩
    · rw [last, size]
    · rw [all, size]
    · have raw' : rawOf s c = Option.some pieces := raw
      rw [size, needs, if_pos string]
      simp [direct, raw']

/-- The loop's step for a column that may be collected. -/
theorem collectStep_run (cast : DecimalCast) (fresh : s.Fresh) (readable : Readable s rows c)
    (some : rows ≠ 0)
    (ready : Collectable s planned c) (fits : (needs s c).Fits room) :
    ∃ host s', collectStep cast planned c room s =
        (.ok (host, room.spend (needs s c)), s') ∧
      Held cast s planned c host ∧ Keeps s s' (Consumed c) := by
  obtain ⟨values, content⟩ := readable.content
  have count : c.rowCount ≠ 0 := by rwa [readable.rowCount]
  have nonempty := readable.nonempty some
  have type : materializable c.type = true := by
    have := ready.type
    cases htype : c.type <;> simp_all [materializable, finalMaterializable]
  obtain ⟨m, s₁, run₁, made⟩ :=
    handleMaterializeExpression_run (c := marked c) fresh ready.known type ready.reached content
  rw [← finalMaterialize_eq ready.type nonempty] at run₁
  obtain ⟨b, found, raw, entries⟩ := materialized_base made count content
  have mtype : m.type = c.type := made.type
  by_cases string : c.type = .varchar
  · obtain ⟨chars, size⟩ := materialized_chars made readable some string
    have length : m.columnLength = (needs s c).strings := by
      rw [made.columnLength, logical_length content, needs, if_pos string]
    have near : m.columnLength ≤ 2 ^ 32 := by
      rw [made.columnLength, logical_length content]
      exact ready.near string
    obtain ⟨host, run₂, hosted⟩ := toHost_string cast planned
      made.counted found (mtype.trans string) near chars room (by rwa [length, size])
    refine ⟨host, s₁, ?_, ⟨entriesOf b m, maskBit b.mask, raw, entries, mtype ▸ hosted⟩,
      made.keeps⟩
    rw [collectStep, Proc.bind_ok run₁, run₂, length, size]
    rfl
  · have fixed : m.type ≠ .varchar := by rwa [mtype]
    obtain ⟨host, s₂, run₂, hosted, keeps⟩ := toHost_fixed cast made.keeps.fresh
      made.counted found fixed (mtype ▸ ready.type) (mtype ▸ ready.converted string) room
    refine ⟨host, s₂, ?_, ⟨entriesOf b m, maskBit b.mask, raw, entries, mtype ▸ hosted⟩, ?_⟩
    · rw [collectStep, Proc.bind_ok run₁, run₂, needs, if_neg string]
      rfl
    · apply (made.keeps.trans keeps).mono
      rintro h (consumed | ⟨⟨⟩⟩)
      exact consumed

theorem copyColumn_raise (cast : DecimalCast) (unready : convertible planned c.type = false) :
    ∃ e, copyColumn cast planned c = Proc.raise e := by
  have big : planned.isInt128 = true := by
    by_contra small
    simp [convertible, small] at unready
  unfold copyColumn
  rw [if_pos big]
  cases htype : c.type with
  | decimal width scale =>
    cases hplanned : planned with
    | decimal toWidth toScale => simp [convertible, htype, hplanned] at unready
    | _ => exact ⟨_, rfl⟩
  | _ =>
    first
    | exact ⟨_, rfl⟩
    | simp [convertible, htype] at unready

/-- A step that returns has met its conditions. -/
theorem collectStep_ok (fresh : s.Fresh) (readable : Readable s rows c) (some : rows ≠ 0)
    {result : HostColumn × Room} (run : collectStep cast planned c room s = (.ok result, s')) :
    Collectable s planned c ∧ (needs s c).Fits room := by
  obtain ⟨values, content⟩ := readable.content
  have count : c.rowCount ≠ 0 := by rwa [readable.rowCount]
  have nonempty := readable.nonempty some
  obtain ⟨m, s₁, run₁, run₂⟩ := Proc.bind_inv run
  have final : finalMaterializable c.type = true := by
    by_contra type
    obtain ⟨e, raise⟩ := finalMaterialize_raise (c := c) (by simpa using type)
    rw [raise] at run₁
    cases run₁
  rw [finalMaterialize_eq final nonempty] at run₁
  have known := handleMaterializeExpression_known (c := marked c) fresh content run₁
  have made := handleMaterializeExpression_ok (c := marked c) fresh content run₁
  have mtype : m.type = c.type := made.type
  by_cases string : c.type = .varchar
  · obtain ⟨chars, size⟩ := materialized_chars made readable some string
    have length : m.columnLength = (needs s c).strings := by
      rw [made.columnLength, logical_length content, needs, if_pos string]
    obtain ⟨b, found, last, inside⟩ := chars
    obtain ⟨⟨d, data, atData⟩, -⟩ := baseOf_iff.mp found
    rw [toHost, if_pos (mtype.trans string)] at run₂
    obtain ⟨strings, s₂, run₃, -⟩ := Proc.bind_inv run₂
    obtain ⟨o, offset⟩ : ∃ o, m.dataWrapper.offset = Option.some o := by
      refine Option.ne_none_iff_exists'.mp fun missing => ?_
      rw [materializeStringColumnToDuckdbFormat, missing] at run₃
      cases run₃
    rw [materializeStringColumnToDuckdbFormat, offset] at run₃
    simp only at run₃
    rw [Proc.bind_ok (copyToHost_run data atData inside)] at run₃
    split at run₃
    case isTrue => cases run₃
    case isFalse room' =>
      split at run₃
      case isTrue => cases run₃
      case isFalse near =>
        rw [made.counted.1, length, size] at room'
        rw [made.counted.1, made.columnLength, logical_length content] at near
        refine ⟨⟨final, fun fixed => absurd string fixed, known, fun _ => Nat.not_lt.mp near⟩, ?_⟩
        unfold Room.Fits
        omega
  · refine ⟨⟨final, fun _ => ?_, known, fun string' => absurd string' string⟩, ?_⟩
    · by_contra unready
      obtain ⟨e, raise⟩ := copyColumn_raise (c := m) cast
        (Bool.eq_false_iff.mpr (by rw [mtype]; exact unready))
      have fixed : m.type ≠ .varchar := by rwa [mtype]
      rw [toHost, if_neg fixed, raise] at run₂
      cases run₂
    · rw [needs, if_neg string]
      exact ⟨Nat.zero_le _, Nat.zero_le _⟩

theorem collectStep_stable (cast : DecimalCast) (planned : LogicalType) (room : Room)
    {P : State → Prop} (stable : Stable P)
    (nonempty : isEmptyColumn c = false) :
    Triple P (collectStep cast planned c room) (fun _ => P) P :=
  Triple.bind (finalMaterialize_stable stable nonempty) fun _ => toHost_stable stable _ _ _

/-- What a column frees is gone after its step. -/
theorem collectStep_frees (cast : DecimalCast) (planned : LogicalType) (room : Room)
    (nonempty : isEmptyColumn c = false) {n : Nat}
    (consumed : Consumed c (.processing n)) :
    Triple (Doomed (.processing n)) (collectStep cast planned c room)
      (fun _ => Gone (.processing n)) fun _ => True :=
  Triple.bind (finalMaterialize_frees nonempty consumed) fun _ =>
    (toHost_stable (gone_stable _) _ _ _).lax

theorem collectColumns_cons (count : c.rowCount ≠ 0) (rest : List (LogicalType × GPUColumn)) :
    collectColumns cast ((planned, c) :: rest) room =
      collectStep cast planned c room >>= fun (host, room) =>
        collectColumns cast rest room >>= fun hosts => pure (hosts.map (host :: ·)) := by
  rw [collectColumns, if_neg count, collectStep, Proc.bind_assoc]

/-- The loop does not return with columns when one of them has no data. -/
theorem collectColumns_dataless (cast : DecimalCast) {columns : List (LogicalType × GPUColumn)}
    (dataless : ∃ x ∈ columns, x.2.dataWrapper.data = none) (room : Room) :
    Triple (fun _ => True) (collectColumns cast columns room)
      (fun collected _ => collected = none) fun _ => True := by
  induction columns generalizing room with
  | nil =>
    obtain ⟨x, member, -⟩ := dataless
    cases member
  | cons x rest ih =>
    obtain ⟨planned, c⟩ := x
    by_cases count : c.rowCount = 0
    · rw [collectColumns, if_pos count]
      exact Triple.ret fun _ _ => rfl
    · rw [collectColumns_cons count]
      by_cases data : c.dataWrapper.data = none
      · have never : Triple (fun _ => True) (collectStep cast planned c room)
            (fun _ _ => False) fun _ => True := by
          apply Triple.bind (finalMaterialize_dataless data)
          intro m s missing
          exact toHost_dataless missing planned room s trivial
        exact Triple.bind never fun _ => Triple.unreachable
      · have later : ∃ x ∈ rest, x.2.dataWrapper.data = none := by
          obtain ⟨x, member, missing⟩ := dataless
          rcases List.mem_cons.mp member with rfl | member
          · exact absurd missing data
          · exact ⟨x, member, missing⟩
        have any : Triple (fun _ => True) (collectStep cast planned c room)
            (fun _ _ => True) fun _ => True := by
          intro s _
          split <;> trivial
        apply Triple.bind any
        rintro ⟨host, room⟩
        apply Triple.bind (ih later room)
        intro hosts s none
        rw [none]
        rfl

/-- The loop does not return with columns when one of them is read from a buffer that is gone. -/
theorem collectColumns_gone (cast : DecimalCast) {h : Handle}
    {columns : List (LogicalType × GPUColumn)}
    (nonempty : ∀ x ∈ columns, x.2.rowCount ≠ 0 ∧ isEmptyColumn x.2 = false)
    (read : ∃ x ∈ columns, h ∈ x.2.buffers ++ x.2.rowIds.toList) (room : Room) :
    Triple (Gone h) (collectColumns cast columns room) (fun _ _ => False) fun _ => True := by
  induction columns generalizing room with
  | nil =>
    obtain ⟨x, member, -⟩ := read
    cases member
  | cons x rest ih =>
    obtain ⟨planned, c⟩ := x
    have first := nonempty _ (List.mem_cons_self)
    rw [collectColumns_cons first.1]
    by_cases here : h ∈ c.buffers ++ c.rowIds.toList
    · exact Triple.bind (collectStep_gone first.2 here planned room) fun _ => Triple.unreachable
    · have later : ∃ x ∈ rest, h ∈ x.2.buffers ++ x.2.rowIds.toList := by
        obtain ⟨x, member, hx⟩ := read
        rcases List.mem_cons.mp member with rfl | member
        · exact absurd hx here
        · exact ⟨x, member, hx⟩
      apply Triple.bind (collectStep_stable cast planned room (gone_stable h) first.2).lax
      rintro ⟨host, room⟩
      have none := ih (fun x member => nonempty x (List.mem_cons_of_mem _ member)) later room
      exact Triple.bind none fun _ => Triple.unreachable

end Loop

section Relations

variable {cast : DecimalCast} {s s' : State} {rows : Nat} {room : Room} {F : Handle → Prop}
  {c d : GPUColumn} {planned : LogicalType}

/-- What one column frees is not read for another. -/
def Clear (s : State) (c d : GPUColumn) : Prop :=
  ∀ h, Consumed c h → h ∈ s.allocationTable → h ∉ d.buffers ++ d.rowIds.toList

structure Untouched (s s' : State) (F : Handle → Prop) (c : GPUColumn) : Prop where
  keeps : Keeps s s' F
  apart : ∀ h ∈ c.buffers ++ c.rowIds.toList, F h → h ∉ s.allocationTable

theorem Untouched.buffers (h : Untouched s s' F c) :
    ∀ g ∈ c.buffers, F g → g ∉ s.allocationTable :=
  fun g member => h.apart g (List.mem_append_left _ member)

theorem Readable.kept (readable : Readable s rows c) (kept : Untouched s s' F c) :
    Readable s' rows c := by
  constructor
  · obtain ⟨values, content⟩ := readable.content
    exact ⟨values, logical_kept kept.apart kept.keeps content⟩
  · exact readable.rowCount
  · intro string some direct
    obtain ⟨b, found, bounds⟩ := readable.chars string some direct
    exact ⟨b, baseOf_kept kept.keeps found kept.buffers, bounds⟩

theorem Readable.raw (readable : Readable s rows c) (some : rows ≠ 0) :
    ∃ pieces, rawOf s c = .some pieces := by
  obtain ⟨values, content⟩ := readable.content
  obtain ⟨b, ids, found, rowIds, -⟩ :=
    (logical_iff (by rwa [readable.rowCount])).mp content
  exact ⟨_, rawOf_eq found rowIds⟩

theorem needs_kept (readable : Readable s rows c) (some : rows ≠ 0)
    (kept : Untouched s s' F c) : needs s' c = needs s c := by
  obtain ⟨pieces, raw⟩ := readable.raw some
  rw [needs, needs, raw, rawOf_kept kept.apart kept.keeps raw]

theorem Readable.live (readable : Readable s rows c) (some : rows ≠ 0) :
    ∀ h ∈ c.buffers, s.Live h := by
  obtain ⟨values, content⟩ := readable.content
  exact live_of_logical content (by rwa [readable.rowCount])

theorem Collectable.kept (ready : Collectable s planned c) (kept : Untouched s s' F c) :
    Collectable s' planned c := by
  refine ⟨ready.type, ready.converted, fun h consumed => ?_, ready.near⟩
  exact kept.keeps.known h (ready.known h consumed) (kept.buffers h consumed.2.2)

theorem Clear.kept (clear : Clear s c d) (readable : Readable s rows c) (some : rows ≠ 0)
    (keeps : Keeps s s' F) : Clear s' c d := by
  intro h consumed allocated
  have live := readable.live some h consumed.2.2
  rcases keeps.table h allocated with before | new
  · exact clear h consumed before
  · exact absurd new (keeps.old.not_new live)

theorem Held.back {host : HostColumn} (held : Held cast s' planned c host)
    (readable : Readable s rows c) (some : rows ≠ 0) (kept : Untouched s s' F c) :
    Held cast s planned c host := by
  obtain ⟨pieces, valid, raw, content, hosted⟩ := held
  obtain ⟨pieces', raw'⟩ := readable.raw some
  obtain ⟨values, content'⟩ := readable.content
  rw [rawOf_kept kept.apart kept.keeps raw'] at raw
  rw [logical_kept kept.apart kept.keeps content'] at content
  exact ⟨pieces, valid, raw'.trans raw, content'.trans content, hosted⟩

def needed (s : State) (columns : List (LogicalType × GPUColumn)) : Room :=
  ⟨(columns.map fun x => (needs s x.2).strings).sum, (columns.map fun x => (needs s x.2).chars).sum⟩

/-- The columns may be collected together. -/
structure AllCollectable (s : State) (columns : List (LogicalType × GPUColumn)) (room : Room) :
    Prop where
  each : ∀ x ∈ columns, Collectable s x.1 x.2
  clear : columns.Pairwise fun x y => Clear s x.2 y.2
  fits : (needed s columns).Fits room

theorem needed_cons (x : LogicalType × GPUColumn) (rest : List (LogicalType × GPUColumn)) :
    (needed s (x :: rest)).Fits room ↔
      (needs s x.2).Fits room ∧ (needed s rest).Fits (room.spend (needs s x.2)) := by
  simp only [needed, Room.Fits, Room.spend, List.map_cons, List.sum_cons]
  omega

theorem needed_kept {columns : List (LogicalType × GPUColumn)}
    (same : ∀ x ∈ columns, needs s' x.2 = needs s x.2) : needed s' columns = needed s columns := by
  unfold needed
  congr 2
  · apply List.map_congr_left
    intro x member
    rw [same x member]
  · apply List.map_congr_left
    intro x member
    rw [same x member]

theorem collectColumns_run (cast : DecimalCast) {columns : List (LogicalType × GPUColumn)}
    (fresh : s.Fresh)
    (readable : ∀ x ∈ columns, Readable s rows x.2) (some : rows ≠ 0)
    (all : AllCollectable s columns room) :
    ∃ hosts s', collectColumns cast columns room s = (.ok (.some hosts), s') ∧
      List.Forall₂ (fun x host => Held cast s x.1 x.2 host) columns hosts := by
  induction columns generalizing s room with
  | nil => exact ⟨[], s, rfl, .nil⟩
  | cons x rest ih =>
    obtain ⟨planned, c⟩ := x
    have first := readable _ List.mem_cons_self
    have count : c.rowCount ≠ 0 := by rwa [first.rowCount]
    obtain ⟨fits, fits'⟩ := (needed_cons _ rest).mp all.fits
    obtain ⟨host, s₁, run, held, keeps⟩ := collectStep_run cast fresh first some
      (all.each _ List.mem_cons_self) fits
    have clear := List.pairwise_cons.mp all.clear
    have kept : ∀ x ∈ rest, Untouched s s₁ (Consumed c) x.2 := fun x member =>
      ⟨keeps, fun h read consumed allocated => clear.1 x member h consumed allocated read⟩
    have readable' : ∀ x ∈ rest, Readable s rows x.2 := fun x member =>
      readable x (List.mem_cons_of_mem _ member)
    have later : AllCollectable s₁ rest (room.spend (needs s c)) := by
      refine ⟨fun x member => ?_, clear.2.imp_of_mem fun hx _ clear => ?_, ?_⟩
      · exact (all.each x (List.mem_cons_of_mem _ member)).kept (kept x member)
      · exact clear.kept (readable' _ hx) some keeps
      · rwa [needed_kept fun x member => needs_kept (readable' x member) some (kept x member)]
    obtain ⟨hosts, s₂, run', held'⟩ := ih keeps.fresh
      (fun x member => (readable' x member).kept (kept x member)) later
    refine ⟨host :: hosts, s₂, ?_, .cons held ?_⟩
    · rw [collectColumns_cons count, Proc.bind_ok run]
      exact Proc.bind_ok run'
    · obtain ⟨length, held'⟩ := List.forall₂_iff_zip.mp held'
      refine List.forall₂_iff_zip.mpr ⟨length, fun {x host} paired => ?_⟩
      have member := (List.of_mem_zip paired).1
      exact (held' paired).back (readable' x member) some (kept x member)

theorem collectColumns_some {columns : List (LogicalType × GPUColumn)}
    (rows : ∀ x ∈ columns, x.2.rowCount ≠ 0) {collected : Option (List HostColumn)}
    (run : collectColumns cast columns room s = (.ok collected, s')) : collected ≠ none := by
  induction columns generalizing s s' room collected with
  | nil =>
    cases run
    simp
  | cons x rest ih =>
    rw [collectColumns_cons (rows x List.mem_cons_self)] at run
    obtain ⟨result, s₁, -, run⟩ := Proc.bind_inv run
    obtain ⟨later, s₂, run, result⟩ := Proc.bind_inv run
    have some := ih (fun y member => rows y (List.mem_cons_of_mem _ member)) run
    cases result
    simpa using some

/-- A loop that returns with columns could collect them all. -/
theorem collectColumns_ok {columns : List (LogicalType × GPUColumn)} {hosts : List HostColumn}
    (fresh : s.Fresh) (readable : ∀ x ∈ columns, Readable s rows x.2) (some : rows ≠ 0)
    (run : collectColumns cast columns room s = (.ok (.some hosts), s')) :
    AllCollectable s columns room := by
  induction columns generalizing s s' room hosts with
  | nil => exact ⟨by simp, .nil, ⟨Nat.zero_le _, Nat.zero_le _⟩⟩
  | cons x rest ih =>
    obtain ⟨planned, c⟩ := x
    have first := readable _ List.mem_cons_self
    have count : c.rowCount ≠ 0 := by rwa [first.rowCount]
    have nonempty := first.nonempty some
    have readable' : ∀ x ∈ rest, Readable s rows x.2 := fun x member =>
      readable x (List.mem_cons_of_mem _ member)
    rw [collectColumns_cons count] at run
    obtain ⟨result, s₁, step, run⟩ := Proc.bind_inv run
    obtain ⟨ready, fits⟩ := collectStep_ok fresh first some step
    obtain ⟨host, s₂, step', -, keeps⟩ :=
      collectStep_run cast fresh first some ready fits
    rw [step] at step'
    cases step'
    obtain ⟨collected, s₂, run, result⟩ := Proc.bind_inv run
    obtain ⟨hosts', rfl⟩ : ∃ hosts', collected = .some hosts' := by
      cases collected with
      | none => cases result
      | some hosts' => exact ⟨hosts', rfl⟩
    -- a buffer the first column frees is gone when it is read
    have clear : ∀ x ∈ rest, Clear s c x.2 := by
      intro x member h consumed allocated read
      obtain ⟨n, rfl⟩ : ∃ n, h = .processing n := by
        cases h with
        | caching n => exact absurd allocated (fresh.apart n)
        | processing n => exact ⟨n, rfl⟩
      have live := first.live some _ consumed.2.2
      have gone := collectStep_frees cast planned room nonempty
        consumed s ⟨fresh.not_new live, .inl allocated⟩
      rw [step] at gone
      have never := collectColumns_gone cast (fun y hy =>
        ⟨by rwa [(readable' y hy).rowCount], (readable' y hy).nonempty some⟩) ⟨x, member, read⟩
        (room.spend (needs s c)) s₁ gone
      rw [run] at never
      exact never
    have kept : ∀ x ∈ rest, Untouched s s₁ (Consumed c) x.2 := fun x member =>
      ⟨keeps, fun h read consumed allocated => clear x member h consumed allocated read⟩
    have readable₁ : ∀ x ∈ rest, Readable s₁ rows x.2 := fun x member =>
      (readable' x member).kept (kept x member)
    have later := ih keeps.fresh readable₁ run
    have same := needed_kept fun x member => needs_kept (readable' x member) some (kept x member)
    have stays : ∀ x ∈ rest, ∀ h, Consumed x.2 h → s₁.Known h → s.Known h := by
      intro x member h consumed known
      by_contra unknown
      have live := (readable' x member).live some h consumed.2.2
      have lost := collectStep_stable cast planned room
        (lost_stable h) nonempty s ⟨fresh.not_new live, unknown⟩
      rw [step] at lost
      exact lost.2 known
    refine ⟨?_, ?_, (needed_cons _ rest).mpr ⟨fits, by rw [← same]; exact later.fits⟩⟩
    · intro x member
      rcases List.mem_cons.mp member with rfl | member
      · exact ready
      · have ready' := later.each x member
        exact ⟨ready'.type, ready'.converted, fun h consumed =>
          stays x member h consumed (ready'.known h consumed), ready'.near⟩
    · refine List.pairwise_cons.mpr ⟨clear, later.clear.imp_of_mem fun {x y} hx _ apart => ?_⟩
      intro h consumed allocated
      have live := (readable' x hx).live some h consumed.2.2
      have doomed := collectStep_stable cast planned room
        (doomed_stable h) nonempty s ⟨fresh.not_new live, .inl allocated⟩
      rw [step] at doomed
      have live₁ := (readable₁ x hx).live some h consumed.2.2
      exact apart h consumed (doomed.2.resolve_right live₁)

end Relations

end CollectorLoop
