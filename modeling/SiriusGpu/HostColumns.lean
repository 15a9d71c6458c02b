import SiriusGpu.ResultCollector

/-!
# Columns on the host

A materialized column is copied to the host entry by entry. The copy fails where
its type has none, where the room for strings is used up, and where a buffer it is
read from is gone.
-/

namespace HostColumns

open ThrowingState ColumnFormat GpuMemory GpuColumns Materialize CudfColumns ResultCollector

section Copies

variable {s : State} {c : GPUColumn} {b : Base}

theorem mask_room (n : Nat) {i : Nat} (h : i < n) : i / 32 < getMaskBytesSize n / 4 := by
  unfold getMaskBytesSize
  omega

/-- The host mask has the bits of the column. -/
theorem copyMask_run (counted : c.Counted)
    (mask : maskAt s c.dataWrapper.validityMask = some b.mask) :
    ∃ words, copyMask c s = (.ok words, s) ∧
      ∀ i < c.columnLength, maskBit (some words) i = maskBit b.mask i := by
  unfold copyMask
  cases validity : c.dataWrapper.validityMask with
  | none =>
    rw [validity] at mask
    cases maskNone : b.mask with
    | some words => simp [maskAt, maskNone] at mask
    | none =>
      refine ⟨_, rfl, ?_⟩
      intro i hi
      have room := mask_room c.columnLength hi
      have lane : i % 32 < 32 := Nat.mod_lt i (by decide)
      have set : (BitVec.allOnes 32).getLsbD (i % 32) = true := by
        rw [BitVec.getLsbD_allOnes, decide_eq_true lane]
      simp only [maskBit, List.getD_eq_getElem?_getD, List.getElem?_replicate, room]
      exact set
  | some h =>
    rw [validity] at mask
    obtain ⟨words, found, same⟩ : ∃ words, s.at Content.asBits h = some words ∧
        some words = b.mask := by simpa [maskAt] using mask
    refine ⟨words.take (c.dataWrapper.maskBytes / 4), Proc.bind_ok (load_ok found), ?_⟩
    intro i hi
    have room := mask_room c.columnLength hi
    rw [← same, counted.2]
    simp [maskBit, List.getD_eq_getElem?_getD, room]

theorem copyToHost_run {d : Handle} {bytes : Bytes} {size : Nat}
    (data : c.dataWrapper.data = some d) (found : s.at Content.asBytes d = some bytes)
    (room : size ≤ bytes.length) :
    copyToHost c.dataWrapper.data size s = (.ok (bytes.take size), s) := by
  rw [data, copyToHost, Proc.bind_ok (load_ok found), if_pos room]
  rfl

/-- The entries of a column without row ids. -/
def entriesOf (b : Base) (c : GPUColumn) : List Bytes := (List.range c.columnLength).map b.bits

@[simp] theorem entriesOf_length : (entriesOf b c).length = c.columnLength := by simp [entriesOf]

theorem fixed_start (found : baseOf s c = some b) (fixed : c.type ≠ .varchar) :
    b.start = fun i => i * getColumnTypeSize c.type := by
  obtain ⟨-, starts, -, -⟩ := baseOf_iff.mp found
  exact (Option.some.inj ((startsOf_fixed fixed).symm.trans starts)).symm

theorem entriesOf_width (found : baseOf s c = some b) (fixed : c.type ≠ .varchar) :
    ∀ piece ∈ entriesOf b c, piece.length = getColumnTypeSize c.type := by
  obtain ⟨-, -, -, sound⟩ := baseOf_iff.mp found
  intro piece member
  obtain ⟨i, hi, rfl⟩ := List.mem_map.mp member
  rw [sound.bits_length (List.mem_range.mp hi), fixed_start found fixed]
  change (i + 1) * _ - i * _ = _
  rw [Nat.add_one_mul, Nat.add_sub_cancel_left]

/-- What is copied to the host is the entries one behind the other. -/
theorem copyToHost_entries (found : baseOf s c = some b) (fixed : c.type ≠ .varchar) :
    copyToHost c.dataWrapper.data (c.columnLength * getColumnTypeSize c.type) s =
      (.ok (entriesOf b c).flatten, s) := by
  obtain ⟨⟨d, data, atData⟩, -, -, sound⟩ := baseOf_iff.mp found
  have start := fixed_start found fixed
  have room : c.columnLength * getColumnTypeSize c.type ≤ b.bytes.length := by
    have := sound.2
    rwa [start] at this
  rw [copyToHost_run data atData room]
  have same : (entriesOf b c).flatten =
      b.bytes.take (c.columnLength * getColumnTypeSize c.type) := by
    rw [← flatten_slices b.bytes _ room, entriesOf]
    congr 1
    apply List.map_congr_left
    intro i _
    rw [Base.bits, start]
  rw [same]

end Copies

section Conversions

/-- The planned types a column of fixed width is copied for. -/
def convertible (planned : LogicalType) (type : GPUColumnType) : Bool :=
  if planned.isInt128 then
    match type, planned with
    | .int16, _ | .int32, _ | .int64, _ => true
    | .decimal _ _, .decimal _ _ => true
    | _, _ => false
  else true

/-- The type of a column that is left with its host copy. -/
def hostType (planned : LogicalType) (type : GPUColumnType) : GPUColumnType :=
  if planned.isInt128 then
    match type, planned with
    | .decimal _ _, .decimal width scale => .decimal width scale
    | _, _ => type
  else type

/-- The bytes of an entry on the host. -/
def hostEntry (cast : DecimalCast) (planned : LogicalType) (type : GPUColumnType)
    (piece : Bytes) : Bytes :=
  if planned.isInt128 then
    match type, planned with
    | .decimal width scale, .decimal toWidth toScale =>
      cast (decimalTypeSize width) scale (decimalTypeSize toWidth) toScale piece
    | _, _ => piece ++ List.replicate (16 - getColumnTypeSize type) 0
  else piece

variable {cast : DecimalCast} {planned : LogicalType} {s : State} {c : GPUColumn} {b : Base}

theorem slices_entries (found : baseOf s c = some b) (fixed : c.type ≠ .varchar) {β : Type}
    (f : Bytes → β) : ((List.range c.columnLength).map fun i =>
      f (slice (entriesOf b c).flatten (i * getColumnTypeSize c.type)
        ((i + 1) * getColumnTypeSize c.type))) = (entriesOf b c).map f := by
  apply List.ext_getElem
  · simp
  · intro i hi hi'
    have inside : i < (entriesOf b c).length := by simpa using hi
    simp only [List.getElem_map, List.getElem_range]
    rw [slice_multiple _ (entriesOf_width found fixed) inside]

theorem widen_entries (found : baseOf s c = some b) (fixed : c.type ≠ .varchar) :
    widen (getColumnTypeSize c.type) c.columnLength (entriesOf b c).flatten =
      ((entriesOf b c).map (· ++ List.replicate (16 - getColumnTypeSize c.type) 0)).flatten := by
  unfold widen
  rw [slices_entries found fixed fun piece => piece ++ List.replicate _ 0]

theorem convertToInt128_run (fresh : s.Fresh) (found : baseOf s c = some b)
    (fixed : c.type ≠ .varchar) (narrow : getColumnTypeSize c.type ≤ 16) :
    ∃ s', convertToInt128 (getColumnTypeSize c.type) c s = (.ok ((entriesOf b c).map
      (· ++ List.replicate (16 - getColumnTypeSize c.type) 0)).flatten, s') ∧
      Keeps s s' fun _ => False := by
  let wide := ((entriesOf b c).map
    (· ++ List.replicate (16 - getColumnTypeSize c.type) 0)).flatten
  have size : wide.length = c.columnLength * 16 := by
    have widths := entriesOf_width found fixed
    have each : ∀ piece ∈ (entriesOf b c).map
        (· ++ List.replicate (16 - getColumnTypeSize c.type) 0), piece.length = 16 := by
      intro piece member
      obtain ⟨entry, inside, rfl⟩ := List.mem_map.mp member
      rw [List.length_append, List.length_replicate, widths entry inside]
      omega
    have all := take_flatten_length _ each (Nat.le_refl _)
    rwa [List.take_length, List.length_map, entriesOf_length] at all
  refine ⟨s.allocate (.bytes wide), ?_, keeps_allocate fresh _⟩
  rw [convertToInt128, Proc.bind_ok (copyToHost_entries found fixed), widen_entries found fixed,
    Proc.bind_ok (customCudaMalloc_run _), copyToHost,
    Proc.bind_ok (load_ok (at_allocate (.bytes wide) Content.asBytes)),
    if_pos (Nat.le_of_eq size.symm), ← size, List.take_length]
  rfl

/-- A view has the data of its column, and its bits. -/
theorem convertToCudfColumn_run (fresh : s.Fresh) (type : materializable c.type = true)
    (counted : c.Counted) (found : baseOf s c = some b) :
    ∃ view b' s', convertToCudfColumn c s = (.ok view, s') ∧ view.Counted ∧
      view.columnLength = c.columnLength ∧ view.type = c.type ∧
      view.dataWrapper.data = c.dataWrapper.data ∧
      baseOf s' c = some b ∧ maskAt s' view.dataWrapper.validityMask = some b' ∧
      (∀ i < c.columnLength, maskBit b' i = maskBit b.mask i) ∧ Keeps s s' fun _ => False := by
  obtain ⟨-, -, mask, -⟩ := baseOf_iff.mp found
  cases validity : c.dataWrapper.validityMask with
  | some m =>
    refine ⟨c, b.mask, s, ?_, counted, rfl, rfl, rfl, found, ?_, fun _ _ => rfl,
      Keeps.refl fresh⟩
    · rw [convertToCudfColumn, validity]
      simp only [Proc.pure_bind, type]
      rfl
    · exact mask
  | none =>
    let words := List.replicate (getMaskBytesSize c.columnLength / 4) (BitVec.allOnes 32)
    have keeps : Keeps s (s.allocate (.bits words)) fun _ => False := keeps_allocate fresh _
    refine ⟨{ c with dataWrapper := { c.dataWrapper with
        validityMask := some (.processing s.next), maskBytes := getMaskBytesSize c.columnLength } },
      some words, s.allocate (.bits words), ?_, ⟨counted.1, rfl⟩, rfl, rfl, rfl, ?_, ?_, ?_,
      keeps⟩
    · rw [convertToCudfColumn, validity]
      simp only [Proc.pure_bind, type]
      rfl
    · exact baseOf_kept keeps found (by simp)
    · simp [maskAt, Content.asBits]
    · intro i hi
      have none : b.mask = Option.none := by
        rw [validity] at mask
        exact (Option.some.inj mask).symm
      have room := mask_room c.columnLength hi
      have lane : i % 32 < 32 := Nat.mod_lt i (by decide)
      have set : (BitVec.allOnes 32).getLsbD (i % 32) = true := by
        rw [BitVec.getLsbD_allOnes, decide_eq_true lane]
      rw [none]
      simp only [maskBit, words, List.getD_eq_getElem?_getD, List.getElem?_replicate, room]
      exact set

theorem castDecimal_run (cast : DecimalCast) (fresh : s.Fresh) (counted : c.Counted)
    (found : baseOf s c = some b)
    {width scale : Nat} (type : c.type = .decimal width scale)
    (final : finalMaterializable c.type = true) (toWidth toScale : Nat) :
    ∃ view mask s', castDecimal cast width scale toWidth toScale c s = (.ok (((entriesOf b c).map
        (cast (decimalTypeSize width) scale (decimalTypeSize toWidth) toScale)).flatten,
          view), s') ∧
      view.Counted ∧ view.columnLength = c.columnLength ∧
      maskAt s' view.dataWrapper.validityMask = some mask ∧
      (∀ i < c.columnLength, maskBit mask i = maskBit b.mask i) ∧ Keeps s s' fun _ => False := by
  have fixed : c.type ≠ .varchar := by simp [type]
  have size : getColumnTypeSize c.type = decimalTypeSize width := by rw [type]; rfl
  have narrow : decimalTypeSize width ≠ 16 := by
    simp only [type, finalMaterializable, decide_eq_true_eq] at final
    unfold decimalTypeSize
    split_ifs <;> omega
  have materialized : materializable c.type = true := by
    simp only [type, finalMaterializable, decide_eq_true_eq] at final
    simp [type, materializable, final.1]
  obtain ⟨view, mask, s', run, counted', length, -, data, found', atMask, bits, keeps⟩ :=
    convertToCudfColumn_run fresh materialized counted found
  have copied := copyToHost_entries found' fixed
  refine ⟨view, mask, s', ?_, counted', length, atMask, bits, keeps⟩
  rw [size] at copied
  have pieces := slices_entries found fixed
    (cast (decimalTypeSize width) scale (decimalTypeSize toWidth) toScale)
  rw [size] at pieces
  rw [castDecimal, if_pos (.inl narrow), Proc.bind_ok run, data, Proc.bind_ok copied, pieces]
  rfl

theorem copyColumn_run (cast : DecimalCast) (fresh : s.Fresh) (counted : c.Counted)
    (found : baseOf s c = some b)
    (fixed : c.type ≠ .varchar) (final : finalMaterializable c.type = true)
    (ready : convertible planned c.type = true) :
    ∃ c' mask s', copyColumn cast planned c s =
        (.ok (((entriesOf b c).map (hostEntry cast planned c.type)).flatten, c'), s') ∧
      c'.Counted ∧ c'.columnLength = c.columnLength ∧ c'.type = hostType planned c.type ∧
      maskAt s' c'.dataWrapper.validityMask = some mask ∧
      (∀ i < c.columnLength, maskBit mask i = maskBit b.mask i) ∧ Keeps s s' fun _ => False := by
  obtain ⟨-, -, mask, -⟩ := baseOf_iff.mp found
  by_cases big : planned.isInt128 = true
  · have widened : ∀ {width : Nat}, width ≤ 16 → getColumnTypeSize c.type = width →
        (∀ piece, hostEntry cast planned c.type piece = piece ++ List.replicate (16 - width) 0) →
        (copyColumn cast planned c = do
          let bytes ← convertToInt128 width c
          pure (bytes, c)) → hostType planned c.type = c.type →
        ∃ c' mask s', copyColumn cast planned c s =
            (.ok (((entriesOf b c).map (hostEntry cast planned c.type)).flatten, c'), s') ∧
          c'.Counted ∧ c'.columnLength = c.columnLength ∧ c'.type = hostType planned c.type ∧
          maskAt s' c'.dataWrapper.validityMask = some mask ∧
          (∀ i < c.columnLength, maskBit mask i = maskBit b.mask i) ∧
          Keeps s s' fun _ => False := by
      rintro width narrow rfl entry code type
      obtain ⟨s', run, keeps⟩ := convertToInt128_run fresh found fixed narrow
      refine ⟨c, b.mask, s', ?_, counted, rfl, type.symm, maskAt_kept keeps (by simp) mask,
        fun _ _ => rfl, keeps⟩
      rw [code, Proc.bind_ok run, List.map_congr_left fun piece _ => entry piece]
      rfl
    cases htype : c.type with
    | int64 =>
      rw [← htype]
      exact widened (by decide : 8 ≤ 16) (by rw [htype]; rfl)
        (fun _ => by simp [hostEntry, big, htype, getColumnTypeSize])
        (by simp [copyColumn, big, htype]) (by simp [hostType, big, htype])
    | int32 =>
      rw [← htype]
      exact widened (by decide : 4 ≤ 16) (by rw [htype]; rfl)
        (fun _ => by simp [hostEntry, big, htype, getColumnTypeSize])
        (by simp [copyColumn, big, htype]) (by simp [hostType, big, htype])
    | int16 =>
      rw [← htype]
      exact widened (by decide : 2 ≤ 16) (by rw [htype]; rfl)
        (fun _ => by simp [hostEntry, big, htype, getColumnTypeSize])
        (by simp [copyColumn, big, htype]) (by simp [hostType, big, htype])
    | decimal width scale =>
      cases hplanned : planned with
      | decimal toWidth toScale =>
        obtain ⟨view, mask', s', run, counted', length, atMask, bits, keeps⟩ :=
          castDecimal_run cast fresh counted found htype final toWidth toScale
        refine ⟨{ view with dataWrapper := { view.dataWrapper with
          type := .decimal toWidth toScale } }, mask', s', ?_, counted', length, ?_, atMask, bits,
          keeps⟩
        · rw [hplanned] at big
          have entry : hostEntry cast (.decimal toWidth toScale) (.decimal width scale) =
              cast (decimalTypeSize width) scale (decimalTypeSize toWidth) toScale := by
            funext piece
            rw [hostEntry, if_pos big]
          rw [entry, copyColumn, if_pos big, htype]
          exact Proc.bind_ok run
        · rw [hplanned] at big
          simp only [hostType, big]
          rfl
      | _ => simp [convertible, htype, hplanned, LogicalType.isInt128] at ready big
    | _ => simp [convertible, htype, big] at ready
  · refine ⟨c, b.mask, s, ?_, counted, rfl, ?_, mask, fun _ _ => rfl, Keeps.refl fresh⟩
    · rw [copyColumn, if_neg big, Proc.bind_ok (copyToHost_entries found fixed)]
      have same : hostEntry cast planned c.type = id := by
        funext piece
        simp [hostEntry, big]
      rw [same, List.map_id]
      rfl
    · simp [hostType, big]

/-- What a column is on the host. -/
structure Hosted (cast : DecimalCast) (planned : LogicalType) (source : GPUColumnType)
    (pieces : List Bytes) (valid : Nat → Bool) (host : HostColumn) : Prop where
  type : host.type = hostType planned source
  columnLength : host.columnLength = pieces.length
  data : host.data = if source = .varchar then .strings pieces
    else .raw (pieces.map (hostEntry cast planned source)).flatten
  mask : ∀ i < pieces.length, maskBit (some host.mask) i = valid i

theorem toHost_fixed (cast : DecimalCast) (fresh : s.Fresh) (counted : c.Counted)
    (found : baseOf s c = some b)
    (fixed : c.type ≠ .varchar) (final : finalMaterializable c.type = true)
    (ready : convertible planned c.type = true) (room : Room) :
    ∃ host s', toHost cast planned c room s = (.ok (host, room), s') ∧
      Hosted cast planned c.type (entriesOf b c) (maskBit b.mask) host ∧
      Keeps s s' fun _ => False := by
  obtain ⟨c', mask, s', run, counted', length, type, atMask, bits, keeps⟩ :=
    copyColumn_run cast fresh counted found fixed final ready
  obtain ⟨words, copied, bits'⟩ :=
    copyMask_run (b := ⟨[], fun _ => 0, mask⟩) counted' atMask
  refine ⟨⟨c'.type, c'.columnLength,
    .raw ((entriesOf b c).map (hostEntry cast planned c.type)).flatten, words⟩, s', ?_,
    ⟨type, ?_, ?_, ?_⟩, keeps⟩
  · rw [toHost, if_neg fixed, Proc.bind_ok run]
    exact Proc.bind_ok copied
  · rw [entriesOf_length, length]
  · rw [if_neg fixed]
  · intro i hi
    rw [entriesOf_length] at hi
    rw [bits' i (by rw [length]; exact hi), bits i hi]

/-- The characters counted are there and reach to the end of the last string. -/
def CountsChars (s : State) (c : GPUColumn) : Prop :=
  ∃ b, baseOf s c = some b ∧ b.start c.columnLength ≤ c.dataWrapper.numBytes ∧
    c.dataWrapper.numBytes ≤ b.bytes.length

theorem toHost_string (cast : DecimalCast) (planned : LogicalType) (counted : c.Counted)
    (found : baseOf s c = some b)
    (string : c.type = .varchar) (near : c.columnLength ≤ 2 ^ 32) (chars : CountsChars s c)
    (room : Room) (enough : c.columnLength ≤ room.strings ∧ c.dataWrapper.numBytes ≤ room.chars) :
    ∃ host, toHost cast planned c room s = (.ok (host,
        ⟨room.strings - c.columnLength, room.chars - c.dataWrapper.numBytes⟩), s) ∧
      Hosted cast planned c.type (entriesOf b c) (maskBit b.mask) host := by
  obtain ⟨b', found', last, inside⟩ := chars
  obtain rfl : b = b' := Option.some.inj (found.symm.trans found')
  obtain ⟨⟨d, data, atData⟩, starts, mask, sound⟩ := baseOf_iff.mp found
  obtain ⟨o, offsets, offset, atOffset, -, start⟩ := (startsOf_string string).mp starts
  obtain ⟨words, copied, bits⟩ := copyMask_run counted mask
  have strings : ((List.range c.dataWrapper.size).map fun i =>
      cpuString b.bytes (b.bytes.take c.dataWrapper.numBytes) (offsets.getD i 0)
        (offsets.getD (i + 1) 0)) = entriesOf b c := by
    rw [counted.1]
    apply List.map_congr_left
    intro i hi
    have below : b.start (i + 1) ≤ c.dataWrapper.numBytes :=
      Nat.le_trans (sound.start_le (List.mem_range.mp hi) (Nat.le_refl _)) last
    have starts : ∀ j, offsets.getD j 0 = b.start j := fun j => by rw [start]
    rw [starts, starts]
    unfold cpuString
    split
    · rfl
    · rw [Base.bits, slice, slice, List.drop_take, List.take_take]
      congr 1
      omega
  have run : materializeStringColumnToDuckdbFormat c room s = (.ok (entriesOf b c,
      ⟨room.strings - c.columnLength, room.chars - c.dataWrapper.numBytes⟩), s) := by
    have fits : ¬ (room.chars < c.dataWrapper.numBytes ∨ room.strings < c.dataWrapper.size) := by
      rw [counted.1]
      omega
    have loaded : loadData c s = (.ok b.bytes, s) := by
      rw [loadData, data]
      exact load_ok atData
    rw [← counted.1] at near
    rw [materializeStringColumnToDuckdbFormat, offset]
    simp only
    rw [Proc.bind_ok (copyToHost_run data atData inside), if_neg fits,
      if_neg (Nat.not_lt.mpr near),
      Proc.bind_ok (load_ok atOffset), Proc.bind_ok loaded, ← strings, counted.1]
    rfl
  refine ⟨⟨c.type, c.columnLength, .strings (entriesOf b c), words⟩, ?_, ⟨?_, ?_, ?_, ?_⟩⟩
  · rw [toHost, if_pos string, Proc.bind_ok run]
    exact Proc.bind_ok copied
  · rw [string]
    by_cases big : planned.isInt128 = true <;> simp [hostType, big]
  · rw [entriesOf_length]
  · rw [if_pos string]
  · intro i hi
    rw [entriesOf_length] at hi
    exact bits i hi

end Conversions

section Losses

variable {cast : DecimalCast} {planned : LogicalType} {c : GPUColumn} {P : State → Prop}
  {h : Handle}

theorem copyToHost_keeps (ptr : Option Handle) (size : Nat) :
    Triple P (copyToHost ptr size) (fun _ => P) P := by
  cases ptr with
  | none => exact Triple.raise fun _ h => h
  | some d =>
    apply Triple.bind (load_keeps _ _)
    intro bytes
    apply Triple.ite
    · exact fun _ => Triple.ret fun _ h => h
    · exact fun _ => Triple.raise fun _ h => h

theorem copyMask_keeps (c : GPUColumn) : Triple P (copyMask c) (fun _ => P) P := by
  unfold copyMask
  split
  · exact Triple.ret fun _ h => h
  · exact Triple.bind (load_keeps _ _) fun _ => Triple.ret fun _ h => h

theorem convertToInt128_stable (stable : Stable P) (width : Nat) (c : GPUColumn) :
    Triple P (convertToInt128 width c) (fun _ => P) P := by
  apply Triple.bind (copyToHost_keeps _ _)
  intro bytes
  exact Triple.bind (stable.customCudaMalloc _) fun _ => copyToHost_keeps _ _

theorem convertToCudfColumn_stable (stable : Stable P) (c : GPUColumn) :
    Triple P (convertToCudfColumn c) (fun view s => SharesBuffers c view ∧ P s) P :=
  convertToCudfColumn_within (stable.within fun _ => True) c

theorem castDecimal_stable (stable : Stable P) (width scale toWidth toScale : Nat)
    (c : GPUColumn) : Triple P (castDecimal cast width scale toWidth toScale c)
      (fun result s => SharesBuffers c result.2 ∧ P s) P := by
  unfold castDecimal
  apply Triple.ite
  · intro _
    apply Triple.bind (convertToCudfColumn_stable stable c)
    intro view
    apply Triple.given
    intro shares
    apply Triple.bind (copyToHost_keeps _ _)
    exact fun bytes => Triple.ret fun _ h => ⟨shares, h⟩
  · intro _
    apply Triple.bind (copyToHost_keeps _ _)
    exact fun bytes => Triple.ret fun _ h => ⟨⟨rfl, fun _ => rfl⟩, h⟩

theorem copyColumn_stable (stable : Stable P) (planned : LogicalType) (c : GPUColumn) :
    Triple P (copyColumn cast planned c) (fun result s => SharesBuffers c result.2 ∧ P s) P := by
  have same : SharesBuffers c c := ⟨rfl, fun _ => rfl⟩
  have widened : ∀ width, Triple P (do
      let bytes ← convertToInt128 width c
      pure (bytes, c)) (fun result s => SharesBuffers c result.2 ∧ P s) P := by
    intro width
    apply Triple.bind (convertToInt128_stable stable width c)
    exact fun bytes => Triple.ret fun _ h => ⟨same, h⟩
  unfold copyColumn
  apply Triple.ite
  · intro _
    split
    · exact widened 8
    · exact widened 4
    · exact widened 2
    · split
      · apply Triple.bind (castDecimal_stable stable _ _ _ _ c)
        intro result
        exact Triple.ret fun _ h => h
      · exact Triple.raise fun _ h => h
    · exact Triple.raise fun _ h => h
  · intro _
    apply Triple.bind (copyToHost_keeps _ _)
    exact fun bytes => Triple.ret fun _ h => ⟨same, h⟩

theorem loadData_keeps (c : GPUColumn) : Triple P (loadData c) (fun _ => P) P := by
  unfold loadData
  split
  · exact Triple.raise fun _ h => h
  · exact load_keeps _ _

theorem materializeStringColumnToDuckdbFormat_keeps (c : GPUColumn) (room : Room) :
    Triple P (materializeStringColumnToDuckdbFormat c room) (fun _ => P) P := by
  unfold materializeStringColumnToDuckdbFormat
  split
  · exact Triple.raise fun _ h => h
  · apply Triple.bind (copyToHost_keeps _ _)
    intro chars
    apply Triple.ite
    · exact fun _ => Triple.raise fun _ h => h
    · intro _
      apply Triple.ite
      · exact fun _ => Triple.raise fun _ h => h
      · intro _
        apply Triple.bind (load_keeps _ _)
        intro starts
        exact Triple.bind (loadData_keeps _) fun _ => Triple.ret fun _ h => h

theorem toHost_stable (stable : Stable P) (planned : LogicalType) (c : GPUColumn) (room : Room) :
    Triple P (toHost cast planned c room) (fun _ => P) P := by
  apply Triple.ite
  · intro _
    apply Triple.bind (materializeStringColumnToDuckdbFormat_keeps c room)
    rintro ⟨strings, room⟩
    exact Triple.bind (copyMask_keeps _) fun _ => Triple.ret fun _ h => h
  · intro _
    apply Triple.bind (copyColumn_stable stable planned c)
    rintro ⟨bytes, c'⟩
    apply Triple.given
    intro _
    exact Triple.bind (copyMask_keeps _) fun _ => Triple.ret fun _ h => h

theorem copyToHost_gone (h : Handle) (size : Nat) :
    Triple (Gone h) (copyToHost (some h) size) (fun _ _ => False) fun _ => True :=
  Triple.bind (load_gone _ _) fun _ => Triple.unreachable

theorem copyMask_gone (mask : c.dataWrapper.validityMask = some h) :
    Triple (Gone h) (copyMask c) (fun _ _ => False) fun _ => True := by
  unfold copyMask
  rw [mask]
  exact Triple.bind (load_gone _ _) fun _ => Triple.unreachable

/-- A column is not copied where its data is not. -/
theorem copyColumn_never (stable : Stable P) (copied : ∀ size,
      Triple P (copyToHost c.dataWrapper.data size) (fun _ _ => False) fun _ => True)
    (planned : LogicalType) :
    Triple P (copyColumn cast planned c) (fun _ _ => False) fun _ => True := by
  have widened : ∀ width, Triple P (do
      let bytes ← convertToInt128 width c
      pure (bytes, c)) (fun _ _ => False) fun _ => True := by
    intro width
    apply Triple.bind (Q := fun _ _ => False)
    · exact Triple.bind (copied _) fun _ => Triple.unreachable
    · exact fun _ => Triple.unreachable
  unfold copyColumn
  apply Triple.ite
  · intro _
    split
    · exact widened 8
    · exact widened 4
    · exact widened 2
    · split
      · apply Triple.bind (Q := fun _ _ => False)
        · unfold castDecimal
          apply Triple.ite
          · intro _
            apply Triple.bind (convertToCudfColumn_stable stable c).lax
            intro view
            apply Triple.given
            intro shares
            rw [shares.1]
            exact Triple.bind (copied _) fun _ => Triple.unreachable
          · exact fun _ => Triple.bind (copied _) fun _ => Triple.unreachable
        · exact fun _ => Triple.unreachable
      · exact Triple.raise fun _ _ => trivial
    · exact Triple.raise fun _ _ => trivial
  · exact fun _ => Triple.bind (copied _) fun _ => Triple.unreachable

theorem copyColumn_gone (data : c.dataWrapper.data = some h) (planned : LogicalType) :
    Triple (Gone h) (copyColumn cast planned c) (fun _ _ => False) fun _ => True := by
  refine copyColumn_never (gone_stable h) (fun size => ?_) planned
  rw [data]
  exact copyToHost_gone h size

/-- A column without data is not copied. -/
theorem toHost_dataless (data : c.dataWrapper.data = none) (planned : LogicalType) (room : Room) :
    Triple (fun _ => True) (toHost cast planned c room) (fun _ _ => False) fun _ => True := by
  have copied (size : Nat) : Triple (fun _ => True) (copyToHost c.dataWrapper.data size)
      (fun _ _ => False) fun _ => True := by
    rw [data]
    exact Triple.raise fun _ _ => trivial
  apply Triple.ite
  · intro _
    apply Triple.bind (Q := fun _ _ => False)
    · unfold materializeStringColumnToDuckdbFormat
      split
      · exact Triple.raise fun _ _ => trivial
      · exact Triple.bind (copied _) fun _ => Triple.unreachable
    · exact fun _ => Triple.unreachable
  · intro _
    have stable : Stable fun _ : State => True :=
      ⟨fun _ _ _ => trivial, fun _ _ _ => trivial, fun _ _ _ _ => trivial⟩
    exact Triple.bind (copyColumn_never stable copied planned) fun _ => Triple.unreachable

/-- A column is not copied from a buffer that is gone. -/
theorem toHost_gone (read : h ∈ c.buffers) (planned : LogicalType) (room : Room) :
    Triple (Gone h) (toHost cast planned c room) (fun _ _ => False) fun _ => True := by
  have buffers : c.dataWrapper.data = some h ∨
      (c.type = .varchar ∧ c.dataWrapper.offset = some h) ∨
      c.dataWrapper.validityMask = some h := by
    by_cases string : c.type = .varchar <;> simpa [GPUColumn.buffers, string] using read
  apply Triple.ite
  · intro _
    rcases buffers with data | ⟨-, offset⟩ | mask
    · apply Triple.bind (Q := fun _ _ => False)
      · unfold materializeStringColumnToDuckdbFormat
        split
        · exact Triple.raise fun _ _ => trivial
        · rw [data]
          exact Triple.bind (copyToHost_gone h _) fun _ => Triple.unreachable
      · exact fun _ => Triple.unreachable
    · apply Triple.bind (Q := fun _ _ => False)
      · unfold materializeStringColumnToDuckdbFormat
        rw [offset]
        apply Triple.bind (copyToHost_keeps _ _).lax
        intro chars
        apply Triple.ite
        · exact fun _ => Triple.raise fun _ _ => trivial
        · intro _
          apply Triple.ite
          · exact fun _ => Triple.raise fun _ _ => trivial
          · exact fun _ => Triple.bind (load_gone _ _) fun _ => Triple.unreachable
      · exact fun _ => Triple.unreachable
    · apply Triple.bind (materializeStringColumnToDuckdbFormat_keeps _ _).lax
      rintro ⟨strings, room⟩
      exact Triple.bind (copyMask_gone mask) fun _ => Triple.unreachable
  · intro fixed
    rcases buffers with data | ⟨string, -⟩ | mask
    · exact Triple.bind (copyColumn_gone data planned) fun _ => Triple.unreachable
    · exact absurd string fixed
    · apply Triple.bind (copyColumn_stable (gone_stable h) planned c).lax
      rintro ⟨bytes, c'⟩
      apply Triple.given
      rintro ⟨-, same⟩
      have mask' := (same (by simp [mask])).trans mask
      exact Triple.bind (copyMask_gone mask') fun _ => Triple.unreachable

theorem finalMaterialize_stable (stable : Stable P) (nonempty : isEmptyColumn c = false) :
    Triple P (finalMaterialize c) (fun _ => P) P := by
  by_cases type : finalMaterializable c.type = true
  · rw [finalMaterialize_eq type nonempty]
    exact handleMaterializeExpression_stable stable _
  · obtain ⟨e, raise⟩ := finalMaterialize_raise (by simpa using type)
    rw [raise]
    exact Triple.raise fun _ h => h

theorem finalMaterialize_frees (nonempty : isEmptyColumn c = false) {n : Nat}
    (consumed : Consumed c (.processing n)) :
    Triple (Doomed (.processing n)) (finalMaterialize c) (fun _ => Gone (.processing n))
      fun _ => True := by
  by_cases type : finalMaterializable c.type = true
  · rw [finalMaterialize_eq type nonempty]
    exact handleMaterializeExpression_frees (doomed_stable _) (gone_stable _)
      (customCudaFree_gone n) nonempty consumed
  · obtain ⟨e, raise⟩ := finalMaterialize_raise (by simpa using type)
    rw [raise]
    exact Triple.raise fun _ _ => trivial

/-- A column without data has none after its final materialization. -/
theorem finalMaterialize_dataless (data : c.dataWrapper.data = none) :
    Triple (fun _ => True) (finalMaterialize c) (fun m _ => m.dataWrapper.data = none)
      fun _ => True := by
  have fixed (width : Nat) : Triple (fun _ => True) (finalMaterializeInternal width c)
      (fun m _ => m.dataWrapper.data = none) fun _ => True := by
    unfold finalMaterializeInternal
    rw [data]
    cases c.rowIds with
    | none => exact Triple.ret fun _ _ => rfl
    | some rowIds => exact Triple.raise fun _ _ => trivial
  have string : Triple (fun _ => True) (finalMaterializeString c)
      (fun m _ => m.dataWrapper.data = none) fun _ => True := by
    unfold finalMaterializeString
    rw [data]
    cases c.rowIds with
    | none => exact Triple.ret fun _ _ => rfl
    | some rowIds => exact Triple.raise fun _ _ => trivial
  unfold finalMaterialize
  split
  case h_13 => split <;> first | exact fixed _ | exact Triple.raise fun _ _ => trivial
  case h_14 => exact Triple.raise fun _ _ => trivial
  case h_12 => exact string
  all_goals exact fixed _

theorem finalMaterialize_gone (nonempty : isEmptyColumn c = false) (late : c.rowIds ≠ none)
    (read : h ∈ c.buffers ++ c.rowIds.toList) :
    Triple (Gone h) (finalMaterialize c) (fun _ _ => False) fun _ => True := by
  by_cases type : finalMaterializable c.type = true
  · rw [finalMaterialize_eq type nonempty]
    exact handleMaterializeExpression_gone (c := marked c) nonempty late read
  · obtain ⟨e, raise⟩ := finalMaterialize_raise (by simpa using type)
    rw [raise]
    exact Triple.raise fun _ _ => trivial

/-- Without row ids the final materialization shares the buffers. -/
theorem finalMaterialize_direct (direct : c.rowIds = none) (nonempty : isEmptyColumn c = false)
    (read : h ∈ c.buffers) :
    Triple P (finalMaterialize c) (fun m s => h ∈ m.buffers ∧ P s) fun _ => True := by
  by_cases type : finalMaterializable c.type = true
  · rw [finalMaterialize_eq type nonempty]
    have nonempty' : isEmptyColumn (marked c) = false := nonempty
    have direct' : (marked c).rowIds = none := direct
    rcases handleMaterializeExpression_cases (marked c) with ⟨-, fixed, width, run⟩ |
      ⟨string, run⟩ | ⟨e, run⟩
    · rw [run]
      simp only [resolveTypeMaterializeExpression, nonempty', direct']
      refine Triple.ret fun s hs => ⟨?_, hs⟩
      have fixed' : c.type ≠ .varchar := fixed
      have fixed'' : ¬ c.dataWrapper.type = .varchar := fixed
      simp only [GPUColumn.buffers, fixed', if_false] at read
      simp only [GPUColumn.buffers, GPUColumn.type, GPUColumn.setUnique, newColumn]
      simpa [marked, fixed''] using read
    · rw [run]
      simp only [resolveTypeMaterializeString, nonempty', direct']
      exact Triple.ret fun s hs => ⟨read, hs⟩
    · rw [run]
      exact Triple.raise fun _ _ => trivial
  · obtain ⟨e, raise⟩ := finalMaterialize_raise (by simpa using type)
    rw [raise]
    exact Triple.raise fun _ _ => trivial

/-- No step of the loop returns that reads a buffer that is gone. -/
theorem collectStep_gone (nonempty : isEmptyColumn c = false)
    (read : h ∈ c.buffers ++ c.rowIds.toList) (planned : LogicalType) (room : Room) :
    Triple (Gone h) (finalMaterialize c >>= fun m => toHost cast planned m room)
      (fun _ _ => False) fun _ => True := by
  by_cases late : c.rowIds = none
  · have read' : h ∈ c.buffers := by simpa [late] using read
    apply Triple.bind (finalMaterialize_direct late nonempty read')
    intro m
    apply Triple.given
    intro shared
    exact toHost_gone shared planned room
  · exact Triple.bind (finalMaterialize_gone nonempty late read) fun _ => Triple.unreachable

end Losses

end HostColumns
