import SiriusGpu.GpuColumns
import SiriusGpu.WarpReduction

/-!
# Materialization

A column with row ids is materialized by gathering its data, its offsets and its
validity bits at them. The buffers it is gathered from are freed. Without row ids
the materialized column shares the buffers.
-/

namespace Materialize

open ThrowingState ColumnFormat GpuMemory GpuColumns WarpReduction

section Kernels

/-- `materialize_without_null`, `materialize_string`: the pieces that start at `start`. -/
def gather (data : Bytes) (start : Nat → Nat) (rowIds : List Nat) : List Bytes :=
  rowIds.map fun i => slice data (start i) (start (i + 1))

/-- The bit a thread has for its item; threads beyond the last item have none. -/
def isValid (mask : List MaskWord) (rowIds : List Nat) (item : Nat) : Bool :=
  match rowIds[item]? with
  | some id => maskBit (some mask) id
  | none => false

/-- The mask `materialize_expression_with_null` and `materialize_offset_with_null` write: the
first thread of every warp of 32 writes the word its warp has packed. -/
def gatherMask (mask : List MaskWord) (rowIds : List Nat) : List MaskWord :=
  (List.range ((rowIds.length + 31) / 32)).map fun warp =>
    packWarp 5 fun lane => isValid mask rowIds (32 * warp + lane)

def exclusiveSum (start : Nat) : List Nat → List Nat
  | [] => []
  | n :: rest => start :: exclusiveSum (start + n) rest

/-- `materialize_offset` writes the lengths, behind which a zero is set. -/
def lengths (offset : List Nat) (rowIds : List Nat) : List Nat :=
  rowIds.map (fun i => offset.getD (i + 1) 0 - offset.getD i 0) ++ [0]

theorem maskBit_gatherMask (mask : List MaskWord) (rowIds : List Nat) {item : Nat}
    (h : item < rowIds.length) :
    maskBit (some (gatherMask mask rowIds)) item = maskBit (some mask) rowIds[item] := by
  have inside : item / 32 < (rowIds.length + 31) / 32 := by omega
  have word : (gatherMask mask rowIds).getD (item / 32) 0 =
      packWarp 5 fun lane => isValid mask rowIds (32 * (item / 32) + lane) := by
    simp [gatherMask, List.getD_eq_getElem?_getD, inside]
  have place : 32 * (item / 32) + item % 32 = item := by omega
  calc maskBit (some (gatherMask mask rowIds)) item
      = (packWarp 5 fun lane => isValid mask rowIds (32 * (item / 32) + lane)).getLsbD
          (item % 32) := by rw [maskBit, word]
    _ = isValid mask rowIds item := by
        have lane : item % 32 < 2 ^ 5 := Nat.mod_lt item (by decide)
        rw [packWarp_bit 5 _ lane, place]
    _ = maskBit (some mask) rowIds[item] := by simp [isValid, h]

theorem exclusiveSum_lengths (start : Nat) (pieces : List Bytes) :
    exclusiveSum start (pieces.map List.length ++ [0]) = offsets start pieces := by
  induction pieces generalizing start with
  | nil => rfl
  | cons piece rest ih => simp only [List.map_cons, List.cons_append, exclusiveSum, offsets, ih]

end Kernels

section Gathered

variable {s : State}

/-- Gathered pieces, with the places where they start and the bits gathered beside them. -/
theorem gathered {base : Base} {rowIds : List Nat} {start : Nat → Nat}
    {mask : Option (List MaskWord)}
    (starts : ∀ j ≤ rowIds.length,
      start j = ((gather base.bytes base.start rowIds).take j).flatten.length)
    (bits : ∀ j (h : j < rowIds.length), maskBit mask j = maskBit base.mask rowIds[j]) :
    let result : Base := ⟨(gather base.bytes base.start rowIds).flatten, start, mask⟩
    result.Sound rowIds.length ∧
      (List.range rowIds.length).map result.bits = gather base.bytes base.start rowIds ∧
      (List.range rowIds.length).map result.entry = rowIds.map base.entry := by
  have size : (gather base.bytes base.start rowIds).length = rowIds.length := by simp [gather]
  intro result
  have pieces : (List.range rowIds.length).map result.bits =
      gather base.bytes base.start rowIds := by
    apply List.ext_getElem
    · simp [size]
    · intro j hj hj'
      have inside : j < rowIds.length := by rwa [size] at hj'
      simp only [List.getElem_map, List.getElem_range]
      change slice _ (start j) (start (j + 1)) = _
      rw [starts j (Nat.le_of_lt inside), starts (j + 1) inside, slice_flatten _ hj']
  refine ⟨?_, pieces, ?_⟩
  · constructor
    · intro j hj
      have first := starts j (Nat.le_of_lt hj)
      have second := starts (j + 1) hj
      have inside : j < (gather base.bytes base.start rowIds).length := by rw [size]; exact hj
      rw [List.take_succ_eq_append_getElem inside, List.flatten_append, List.length_append]
        at second
      change start j ≤ start (j + 1)
      omega
    · have last := starts rowIds.length (Nat.le_refl _)
      rw [← size, List.take_length, size] at last
      exact Nat.le_of_eq last
  · apply List.ext_getElem
    · simp
    · intro j hj hj'
      have inside : j < rowIds.length := by simpa using hj
      have piece : result.bits j = base.bits rowIds[j] := by
        have := congrArg (·[j]?) pieces
        simpa [inside, gather, Base.bits] using this
      simp only [List.getElem_map, List.getElem_range, Base.entry, piece]
      rw [bits j inside]

theorem gather_lengths {base : Base} {length : Nat} (sound : base.Sound length)
    {rowIds : List Nat} (inside : ∀ i ∈ rowIds, i < length) :
    (gather base.bytes base.start rowIds).map List.length =
      rowIds.map fun i => base.start (i + 1) - base.start i := by
  rw [gather, List.map_map]
  apply List.map_congr_left
  intro i hi
  exact sound.bits_length (inside i hi)

/-- Pieces of one width start at its multiples. -/
theorem gather_starts {base : Base} {width length : Nat} (sound : base.Sound length)
    (fixed : base.start = fun i => i * width) {rowIds : List Nat}
    (inside : ∀ i ∈ rowIds, i < length) : ∀ j ≤ rowIds.length,
      j * width = ((gather base.bytes base.start rowIds).take j).flatten.length := by
  intro j hj
  rw [take_flatten_length]
  · intro piece hpiece
    obtain ⟨i, hi, rfl⟩ := List.mem_map.mp hpiece
    calc (base.bits i).length = base.start (i + 1) - base.start i :=
          sound.bits_length (inside i hi)
      _ = (i + 1) * width - i * width := by rw [fixed]
      _ = width := by rw [Nat.add_one_mul, Nat.add_sub_cancel_left]
  · simpa [gather] using hj

end Gathered

section Operations

/-- The row ids a kernel with `count` items reads. -/
def loadRowIds (rowIds : Handle) (count : Nat) : Action (List Nat) := do
  let ids ← load Content.asWords rowIds
  if count ≤ ids.length then pure (ids.take count) else Proc.raise .fault

/-- The kernels of strings compute their row in 32 bits: the lengths of further rows, which are
summed up, are never written. -/
def loadReachedRowIds (rowIds : Handle) (count : Nat) : Action (List Nat) :=
  if count ≤ 2 ^ 32 then loadRowIds rowIds count else Proc.raise .fault

def materializeMask (mask : Option Handle) (ids : List Nat) : Action (Option Handle) :=
  match mask with
  | none => pure none
  | some h => do
    let words ← load Content.asBits h
    let outMask ← customCudaMalloc (.bits (gatherMask words ids))
    pure (some outMask)

def materializeExpression (width : Nat) (a rowIds : Handle) (resultLen : Nat)
    (mask : Option Handle) : Action (Handle × Option Handle) := do
  let data ← load Content.asBytes a
  let ids ← loadRowIds rowIds resultLen
  let result ← customCudaMalloc (.bytes (gather data (· * width) ids).flatten)
  let outMask ← materializeMask mask ids
  customCudaFree (some a)
  customCudaFree mask
  pure (result, outMask)

structure MaterializedString where
  result : Handle
  resultOffset : Handle
  resultBytes : Nat
  outMask : Option Handle

def materializeString (data offset rowIds : Handle) (resultLen : Nat) (mask : Option Handle) :
    Action MaterializedString := do
  let chars ← load Content.asBytes data
  let starts ← load Content.asWords offset
  let ids ← loadReachedRowIds rowIds resultLen
  let resultStarts := exclusiveSum 0 (lengths starts ids)
  let resultOffset ← customCudaMalloc (.words resultStarts)
  let outMask ← materializeMask mask ids
  let result ← customCudaMalloc (.bytes (gather chars (starts.getD · 0) ids).flatten)
  customCudaFree (some data)
  customCudaFree (some offset)
  customCudaFree mask
  pure ⟨result, resultOffset, resultStarts.getD resultLen 0, outMask⟩

/-- Nothing to materialize. -/
def isEmptyColumn (c : GPUColumn) : Bool :=
  c.dataWrapper.data.isNone || c.columnLength == 0 || c.rowIds.isSome && c.rowIdCount == 0

def resolveTypeMaterializeExpression (width : Nat) (c : GPUColumn) : Action GPUColumn :=
  if isEmptyColumn c then pure (newColumn 0 c.type none none)
  else match c.rowIds, c.dataWrapper.data with
    | some rowIds, some data => do
      let (a, outMask) ← materializeExpression width data rowIds c.rowIdCount
        c.dataWrapper.validityMask
      pure ((newColumn c.rowIdCount c.type (some a) outMask).setUnique c.isUnique)
    | _, data =>
      pure ((newColumn c.columnLength c.type data c.dataWrapper.validityMask).setUnique
        c.isUnique)

def resolveTypeMaterializeString (c : GPUColumn) : Action GPUColumn :=
  if isEmptyColumn c then
    pure (newStringColumn 0 c.type none none 0 c.dataWrapper.isStringData none)
  else match c.rowIds, c.dataWrapper.data with
    | some rowIds, some data =>
      match c.dataWrapper.offset with
      | none => Proc.raise .fault
      | some offset => do
        let m ← materializeString data offset rowIds c.rowIdCount c.dataWrapper.validityMask
        pure ((newStringColumn c.rowIdCount c.type (some m.result) (some m.resultOffset)
          m.resultBytes c.dataWrapper.isStringData m.outMask).setUnique c.isUnique)
    | _, data =>
      pure ((newStringColumn c.columnLength c.type data c.dataWrapper.offset
        c.dataWrapper.numBytes c.dataWrapper.isStringData
        c.dataWrapper.validityMask).setUnique c.isUnique)

def handleMaterializeExpression (c : GPUColumn) : Action GPUColumn :=
  match c.type with
  | .int16 => resolveTypeMaterializeExpression 2 c
  | .int32 | .date => resolveTypeMaterializeExpression 4 c
  | .int64 | .timestampSec | .timestampMs | .timestampUs | .timestampNs =>
    resolveTypeMaterializeExpression 8 c
  | .float32 => resolveTypeMaterializeExpression 4 c
  | .float64 => resolveTypeMaterializeExpression 8 c
  | .boolean => resolveTypeMaterializeExpression 1 c
  | .varchar => resolveTypeMaterializeString c
  | .decimal width _ =>
    match decimalTypeSize width with
    | 4 => resolveTypeMaterializeExpression 4 c
    | 8 => resolveTypeMaterializeExpression 8 c
    | 16 => resolveTypeMaterializeExpression 16 c
    | _ => Proc.raise (.notImplemented
        "Unsupported sirius DECIMAL column type size in `HandleMaterializeExpression`")
  | .int128 => Proc.raise (.notImplemented
      "Unsupported sirius column type in `HandleMaterializeExpression`")

end Operations

section Runs

variable {s : State} {c : GPUColumn}

theorem loadRowIds_run {r : Handle} {rowIds : List Nat} (late : c.rowIds = some r)
    (ids : idsOf s c = some rowIds) : loadRowIds r c.rowIdCount s = (.ok rowIds, s) ∧
      rowIds.length = c.rowIdCount ∧ ∀ i ∈ rowIds, i < c.columnLength := by
  unfold idsOf at ids
  rw [late] at ids
  cases found : s.at Content.asWords r with
  | none => simp [found] at ids
  | some words =>
    have split : (c.rowIdCount ≤ words.length ∧ ∀ i ∈ words.take c.rowIdCount,
        i < c.columnLength) ∧ words.take c.rowIdCount = rowIds := by
      simpa [found] using ids
    obtain ⟨⟨room, inside⟩, rfl⟩ := split
    refine ⟨?_, by rw [List.length_take]; omega, inside⟩
    rw [loadRowIds, Proc.bind_ok (load_ok found), if_pos room]
    rfl

theorem loadReachedRowIds_eq {count : Nat} (reached : count ≤ 2 ^ 32) (r : Handle) :
    loadReachedRowIds r count = loadRowIds r count := if_pos reached

theorem materializeMask_run (fresh : s.Fresh) {m : Option Handle}
    {mask : Option (List MaskWord)} (at' : maskAt s m = some mask) (rowIds : List Nat) :
    ∃ outMask mask' s', materializeMask m rowIds s = (.ok outMask, s') ∧
      maskAt s' outMask = some mask' ∧
      (∀ j (h : j < rowIds.length), maskBit mask' j = maskBit mask rowIds[j]) ∧
      (∀ h ∈ outMask, ¬ s.Live h) ∧ Keeps s s' fun _ => False := by
  cases m with
  | none =>
    cases at'
    exact ⟨none, none, s, rfl, rfl, fun _ _ => rfl, by simp, Keeps.refl fresh⟩
  | some h =>
    obtain ⟨words, found, rfl⟩ : ∃ words, s.at Content.asBits h = some words ∧
        some words = mask := by simpa [maskAt] using at'
    refine ⟨some (.processing s.next), some (gatherMask words rowIds),
      s.allocate (.bits (gatherMask words rowIds)), ?_, ?_, ?_, ?_, keeps_allocate fresh _⟩
    · rw [materializeMask, Proc.bind_ok (load_ok found)]
      rfl
    · simp [maskAt, Content.asBits]
    · intro j hj
      exact maskBit_gatherMask words rowIds hj
    · rintro g ⟨⟩ live
      exact fresh.next_ne live rfl

end Runs

section Materialized

variable {s : State} {c : GPUColumn}

theorem materializeExpression_run (width : Nat) (fresh : s.Fresh) {base : Base} {a r : Handle}
    {m : Option Handle} {n : Nat} {rowIds : List Nat}
    (data : s.at Content.asBytes a = some base.bytes)
    (rows : loadRowIds r n s = (.ok rowIds, s)) (mask : maskAt s m = some base.mask)
    (knownData : s.Known a) (knownMask : ∀ h ∈ m, s.Known h) :
    ∃ result outMask mask' s',
      materializeExpression width a r n m s = (.ok (result, outMask), s') ∧
      s'.at Content.asBytes result = some (gather base.bytes (· * width) rowIds).flatten ∧
      maskAt s' outMask = some mask' ∧
      (∀ j (h : j < rowIds.length), maskBit mask' j = maskBit base.mask rowIds[j]) ∧
      Keeps s s' fun h => h = a ∨ h ∈ m := by
  have apart := apart_mask asBytes_asBits data mask
  have liveMask := live_of_maskAt mask
  let content := Content.bytes (gather base.bytes (· * width) rowIds).flatten
  have keeps₁ : Keeps s (s.allocate content) fun _ => False := keeps_allocate fresh content
  obtain ⟨outMask, mask', s₂, run₂, at₂, bits, new₂, keeps₂⟩ :=
    materializeMask_run keeps₁.fresh (maskAt_kept keeps₁ (by simp) mask) rowIds
  have keeps₁₂ : Keeps s s₂ fun _ => False := (keeps₁.trans keeps₂).mono (by simp)
  obtain ⟨s₃, run₃, keeps₃⟩ := customCudaFree_run keeps₂.fresh (some a)
    (by rintro h ⟨⟩; exact keeps₁₂.known a knownData (by simp))
  have keeps₁₃ : Keeps s s₃ (· = a) := (keeps₁₂.trans keeps₃).mono (by simp [eq_comm])
  obtain ⟨s₄, run₄, keeps₄⟩ := customCudaFree_run keeps₃.fresh m fun h hm =>
    keeps₁₃.known h (knownMask h hm) fun same => absurd same (apart h hm)
  have atResult : (s.allocate content).at Content.asBytes (.processing s.next) =
      some (gather base.bytes (· * width) rowIds).flatten := at_allocate content Content.asBytes
  refine ⟨.processing s.next, outMask, mask', s₄, ?_, ?_, ?_, bits, ?_⟩
  · rw [materializeExpression, Proc.bind_ok (load_ok data), Proc.bind_ok rows,
      Proc.bind_ok (customCudaMalloc_run content),
      Proc.bind_ok run₂, Proc.bind_ok run₃, Proc.bind_ok run₄]
    rfl
  · apply keeps₄.at
    · intro hm
      exact absurd rfl (fresh.next_ne (liveMask _ hm))
    · apply keeps₃.at
      · intro same
        exact absurd (Option.some.inj same) (fresh.next_ne (live_of_at data))
      · exact keeps₂.at (by simp) atResult
  · apply maskAt_kept keeps₄
    · intro h hout hm
      exact absurd (keeps₁.live (liveMask h hm) (by simp)) (new₂ h hout)
    · apply maskAt_kept keeps₃
      · rintro h hout ⟨⟩
        exact absurd (keeps₁.live (live_of_at data) (by simp)) (new₂ _ hout)
      · exact at₂
  · exact keeps₁₃.trans keeps₄

theorem resultStarts {base : Base} {length : Nat} (sound : base.Sound length) {starts : List Nat}
    (start : base.start = fun i => starts.getD i 0) {rowIds : List Nat}
    (inside : ∀ i ∈ rowIds, i < length) : exclusiveSum 0 (lengths starts rowIds) =
      offsets 0 (gather base.bytes base.start rowIds) := by
  have sizes := gather_lengths sound inside
  rw [← exclusiveSum_lengths, sizes, start]
  rfl

theorem materializeString_run (fresh : s.Fresh) {base : Base} {length : Nat}
    (sound : base.Sound length) {d o r : Handle} {m : Option Handle} {n : Nat}
    {starts rowIds : List Nat} (start : base.start = fun i => starts.getD i 0)
    (chars : s.at Content.asBytes d = some base.bytes)
    (offset : s.at Content.asWords o = some starts)
    (rows : loadReachedRowIds r n s = (.ok rowIds, s)) (count : rowIds.length = n)
    (inside : ∀ i ∈ rowIds, i < length)
    (mask : maskAt s m = some base.mask) (knownData : s.Known d) (knownOffset : s.Known o)
    (knownMask : ∀ h ∈ m, s.Known h) :
    ∃ made mask' s', materializeString d o r n m s = (.ok made, s') ∧
      s'.at Content.asBytes made.result =
        some (gather base.bytes base.start rowIds).flatten ∧
      s'.at Content.asWords made.resultOffset =
        some (offsets 0 (gather base.bytes base.start rowIds)) ∧
      made.resultBytes = (gather base.bytes base.start rowIds).flatten.length ∧
      maskAt s' made.outMask = some mask' ∧
      (∀ j (h : j < rowIds.length), maskBit mask' j = maskBit base.mask rowIds[j]) ∧
      Keeps s s' fun h => h = d ∨ h = o ∨ h ∈ m := by
  have apartData := apart_mask asBytes_asBits chars mask
  have apartOffset := apart_mask asWords_asBits offset mask
  have apart := apart_of_kind asBytes_asWords chars offset
  have liveMask := live_of_maskAt mask
  have same := resultStarts sound start inside
  let words := Content.words (exclusiveSum 0 (lengths starts rowIds))
  have keeps₁ : Keeps s (s.allocate words) fun _ => False := keeps_allocate fresh words
  obtain ⟨outMask, mask', s₂, run₂, at₂, bits, new₂, keeps₂⟩ :=
    materializeMask_run keeps₁.fresh (maskAt_kept keeps₁ (by simp) mask) rowIds
  have keeps₁₂ : Keeps s s₂ fun _ => False := (keeps₁.trans keeps₂).mono (by simp)
  let content := Content.bytes (gather base.bytes (starts.getD · 0) rowIds).flatten
  have keeps₃ : Keeps s₂ (s₂.allocate content) fun _ => False :=
    keeps_allocate keeps₂.fresh content
  have keeps₁₃ : Keeps s (s₂.allocate content) fun _ => False :=
    (keeps₁₂.trans keeps₃).mono (by simp)
  obtain ⟨s₄, run₄, keeps₄⟩ := customCudaFree_run keeps₃.fresh (some d)
    (by rintro h ⟨⟩; exact keeps₁₃.known d knownData (by simp))
  have keeps₁₄ : Keeps s s₄ (· = d) := (keeps₁₃.trans keeps₄).mono (by simp [eq_comm])
  obtain ⟨s₅, run₅, keeps₅⟩ := customCudaFree_run keeps₄.fresh (some o)
    (by rintro h ⟨⟩; exact keeps₁₄.known o knownOffset fun same => absurd same.symm apart)
  have keeps₁₅ : Keeps s s₅ fun h => h = d ∨ h = o :=
    (keeps₁₄.trans keeps₅).mono (by simp [eq_comm])
  obtain ⟨s₆, run₆, keeps₆⟩ := customCudaFree_run keeps₅.fresh m fun h hm =>
    keeps₁₅.known h (knownMask h hm) fun freed =>
      freed.elim (fun same => absurd same (apartData h hm))
        fun same => absurd same (apartOffset h hm)
  -- the handles freed were live before, those made are not
  have old : ∀ h, h ∈ some d ∨ h ∈ some o ∨ h ∈ m → s.Live h := by
    rintro h (⟨⟨⟩⟩ | ⟨⟨⟩⟩ | hm)
    · exact live_of_at chars
    · exact live_of_at offset
    · exact liveMask h hm
  have freed := (keeps₄.trans keeps₅).trans keeps₆
  have kept : ∀ g, ¬ s.Live g → (g ∈ some d ∨ g ∈ some o) ∨ g ∈ m →
      g ∉ (s₂.allocate content).allocationTable := by
    intro g new hg
    exact absurd (old g (by tauto)) new
  refine ⟨⟨.processing s₂.next, .processing s.next,
    (exclusiveSum 0 (lengths starts rowIds)).getD n 0, outMask⟩, mask', s₆, ?_, ?_, ?_, ?_, ?_,
    bits, ?_⟩
  · rw [materializeString, Proc.bind_ok (load_ok chars), Proc.bind_ok (load_ok offset),
      Proc.bind_ok rows, Proc.bind_ok (customCudaMalloc_run words), Proc.bind_ok run₂,
      Proc.bind_ok (customCudaMalloc_run content), Proc.bind_ok run₄, Proc.bind_ok run₅,
      Proc.bind_ok run₆]
    rfl
  · apply freed.at
    · apply kept
      intro live
      exact keeps₂.fresh.next_ne (keeps₁₂.live live (by simp)) rfl
    · rw [start]
      exact at_allocate content Content.asBytes
  · apply freed.at
    · apply kept
      intro live
      exact fresh.next_ne live rfl
    · apply keeps₃.at (by simp)
      apply keeps₂.at (by simp)
      rw [← same]
      exact at_allocate words Content.asWords
  · have size : n = (gather base.bytes base.start rowIds).length := by simp [gather, count]
    rw [same, size, offsets_last, Nat.zero_add]
  · apply maskAt_kept freed
    · intro h hout
      apply kept
      intro live
      exact new₂ h hout (keeps₁.live live (by simp))
    · exact maskAt_kept keeps₃ (by simp) at₂
  · exact (keeps₁₅.trans keeps₆).mono (by simp [or_assoc])

/-- The types `HandleMaterializeExpression` has a case for. -/
def materializable : GPUColumnType → Bool
  | .int128 => false
  | .decimal width _ => 4 < width
  | _ => true

/-- The row ids of a string column are within the reach of its kernels. -/
def Reached (c : GPUColumn) : Prop :=
  c.type = .varchar → c.rowIds ≠ none → c.rowIdCount ≤ 2 ^ 32

/-- The buffers a materialization frees. -/
def Consumed (c : GPUColumn) (h : Handle) : Prop :=
  c.rowIds ≠ none ∧ c.rowCount ≠ 0 ∧ h ∈ c.buffers

structure Materialized (s s' : State) (c c' : GPUColumn) (values : List (Option Bytes)) :
    Prop where
  content : logical s' c' = some values
  rowIds : c'.rowIds = none
  columnLength : c'.columnLength = values.length
  counted : c'.Counted
  type : c'.type = c.type
  raw : c.rowCount ≠ 0 → rawOf s' c' = rawOf s c
  shared : c.rowIds = none → c.rowCount ≠ 0 →
    baseOf s' c' = baseOf s c ∧ c'.columnLength = c.columnLength
  numBytes : c.type = .varchar → c.dataWrapper.isStringData = true → c.rowCount ≠ 0 →
    if c.rowIds = none then c'.dataWrapper.numBytes = c.dataWrapper.numBytes
    else ∃ base pieces, baseOf s' c' = some base ∧ rawOf s c = some pieces ∧
      c'.dataWrapper.numBytes = pieces.flatten.length ∧
      base.start c'.columnLength = pieces.flatten.length ∧ base.bytes = pieces.flatten
  keeps : Keeps s s' (Consumed c)

theorem handleMaterializeExpression_fixed (type : materializable c.type = true)
    (fixed : c.type ≠ .varchar) : handleMaterializeExpression c =
      resolveTypeMaterializeExpression (getColumnTypeSize c.type) c := by
  unfold handleMaterializeExpression
  cases htype : c.type with
  | decimal width scale =>
    rw [htype] at type
    have wide : ¬ width ≤ 4 := by simpa [materializable] using type
    by_cases small : width ≤ 9
    · simp [getColumnTypeSize, decimalTypeSize, wide, small]
    · by_cases medium : width ≤ 18
      · simp [getColumnTypeSize, decimalTypeSize, wide, small, medium]
      · simp [getColumnTypeSize, decimalTypeSize, wide, small, medium]
  | int128 => simp [materializable, htype] at type
  | varchar => exact absurd htype fixed
  | _ => rfl

theorem isEmptyColumn_iff_of_logical {values : List (Option Bytes)}
    (content : logical s c = some values) : isEmptyColumn c = true ↔ c.rowCount = 0 := by
  constructor
  · intro empty
    by_contra rows
    obtain ⟨base, rowIds, found, ids, -⟩ := (logical_iff rows).mp content
    obtain ⟨⟨d, data, -⟩, -⟩ := baseOf_iff.mp found
    have count := idsOf_length ids
    have inside := idsOf_mem ids
    rcases rowIds with _ | ⟨i, rest⟩
    · exact rows count.symm
    · have first := inside i (by simp)
      have length : c.columnLength ≠ 0 := by omega
      cases late : c.rowIds with
      | none => simp [isEmptyColumn, data, length, late] at empty
      | some r =>
        have positive : c.rowIdCount ≠ 0 := by simpa [GPUColumn.rowCount, late] using rows
        simp [isEmptyColumn, data, length, late, positive] at empty
  · intro rows
    cases late : c.rowIds with
    | none =>
      have length : c.columnLength = 0 := by simpa [GPUColumn.rowCount, late] using rows
      simp [isEmptyColumn, length]
    | some r =>
      have zero : c.rowIdCount = 0 := by simpa [GPUColumn.rowCount, late] using rows
      simp [isEmptyColumn, late, zero]

theorem materialized_empty (fresh : s.Fresh) {values : List (Option Bytes)}
    (content : logical s c = some values) (rows : c.rowCount = 0) {c' : GPUColumn}
    (rowIds : c'.rowIds = none) (length : c'.columnLength = 0) (counted : c'.Counted)
    (type : c'.type = c.type) :
    Materialized s s c c' values := by
  have count : c'.rowCount = 0 := by rw [GPUColumn.rowCount, rowIds]; exact length
  have none : values.length = 0 := by rw [logical_length content, rows]
  constructor
  · rw [List.length_eq_zero_iff.mp none]
    exact if_pos count
  · exact rowIds
  · rw [length, none]
  · exact counted
  · exact type
  · exact fun some => absurd rows some
  · exact fun _ some => absurd rows some
  · exact fun _ _ some => absurd rows some
  · exact Keeps.refl fresh

/-- Without row ids the materialized column is the column again. -/
theorem materialized_shared (fresh : s.Fresh) {values : List (Option Bytes)}
    (content : logical s c = some values) (direct : c.rowIds = none) {c' : GPUColumn}
    (rowIds : c'.rowIds = none) (length : c'.columnLength = c.columnLength)
    (counted : c'.Counted)
    (type : c'.type = c.type) (data : c'.dataWrapper.data = c.dataWrapper.data)
    (offset : c.type = .varchar → c'.dataWrapper.offset = c.dataWrapper.offset)
    (numBytes : c.type = .varchar → c.dataWrapper.isStringData = true →
      c'.dataWrapper.numBytes = c.dataWrapper.numBytes)
    (mask : c'.dataWrapper.validityMask = c.dataWrapper.validityMask) :
    Materialized s s c c' values := by
  have starts : startsOf s c' = startsOf s c := by
    unfold startsOf
    rw [type, length]
    by_cases string : c.type = .varchar
    · rw [if_pos string, if_pos string, offset string]
    · rw [if_neg string, if_neg string]
  have same : logical s c' = logical s c := by
    simp only [logical, GPUColumn.rowCount, baseOf, idsOf, rowIds, direct, length, data, mask,
      starts]
  constructor
  · rw [same, content]
  · exact rowIds
  · rw [logical_length content, length, GPUColumn.rowCount, direct]
  · exact counted
  · exact type
  · intro _
    simp only [rawOf, baseOf, idsOf, rowIds, direct, length, data, mask, starts]
  · intro _ _
    simp only [baseOf, length, data, mask, starts, and_self]
  · intro string data _
    rw [if_pos direct]
    exact numBytes string data
  · exact Keeps.refl fresh

theorem known_buffers {h : Handle} (known : ∀ h ∈ c.buffers, s.Known h) :
    (c.dataWrapper.data = some h → s.Known h) ∧
      (c.type = .varchar → c.dataWrapper.offset = some h → s.Known h) ∧
      (c.dataWrapper.validityMask = some h → s.Known h) := by
  refine ⟨?_, ?_, ?_⟩
  · intro data
    exact known h (by simp [GPUColumn.buffers, data])
  · intro string offset
    exact known h (by simp [GPUColumn.buffers, string, offset])
  · intro mask
    exact known h (by simp [GPUColumn.buffers, mask])

/-- A column read at the gathered pieces has the gathered content. -/
theorem materialized_gathered {s' : State} {base : Base} {rowIds : List Nat}
    {start : Nat → Nat} {mask : Option (List MaskWord)} {c' : GPUColumn} {d : Handle}
    (starts : ∀ j ≤ rowIds.length,
      start j = ((gather base.bytes base.start rowIds).take j).flatten.length)
    (bits : ∀ j (h : j < rowIds.length), maskBit mask j = maskBit base.mask rowIds[j])
    (direct : c'.rowIds = none) (length : c'.columnLength = rowIds.length)
    (counted : c'.Counted) (type : c'.type = c.type) (late : c.rowIds ≠ none)
    (raw : rawOf s c = some (gather base.bytes base.start rowIds))
    (numBytes : c.type = .varchar → c.dataWrapper.isStringData = true →
      c'.dataWrapper.numBytes = (gather base.bytes base.start rowIds).flatten.length)
    (data : c'.dataWrapper.data = some d)
    (bytes : s'.at Content.asBytes d = some (gather base.bytes base.start rowIds).flatten)
    (starts' : startsOf s' c' = some start)
    (mask' : maskAt s' c'.dataWrapper.validityMask = some mask)
    (keeps : Keeps s s' (Consumed c)) :
    Materialized s s' c c' (rowIds.map base.entry) := by
  have read := gathered starts bits
  have found : baseOf s' c' = some ⟨(gather base.bytes base.start rowIds).flatten, start, mask⟩ :=
    baseOf_iff.mpr ⟨⟨d, data, bytes⟩, starts', mask', by rw [length]; exact read.1⟩
  constructor
  · rw [logical_of_base direct found, length]
    exact congrArg some read.2.2
  · exact direct
  · rw [length, List.length_map]
  · exact counted
  · exact type
  · intro _
    rw [raw, rawOf_of_base direct found, length]
    exact congrArg some read.2.1
  · exact fun direct => absurd direct late
  · intro string data _
    rw [if_neg late]
    have last := starts rowIds.length (Nat.le_refl _)
    have size : (gather base.bytes base.start rowIds).length = rowIds.length := by simp [gather]
    rw [← size, List.take_length, size, ← length] at last
    exact ⟨_, _, found, raw, numBytes string data, last, rfl⟩
  · exact keeps

variable {base : Base} {rowIds : List Nat} {r : Handle}

theorem resolveTypeMaterializeExpression_run (fresh : s.Fresh)
    (known : ∀ h ∈ c.buffers, s.Known h) (fixed : c.type ≠ .varchar) (rows : c.rowCount ≠ 0)
    (nonempty : isEmptyColumn c = false) (late : c.rowIds = some r)
    (found : baseOf s c = some base) (ids : idsOf s c = some rowIds) :
    ∃ c' s', resolveTypeMaterializeExpression (getColumnTypeSize c.type) c s = (.ok c', s') ∧
      Materialized s s' c c' (rowIds.map base.entry) := by
  obtain ⟨⟨d, data, bytes⟩, starts, mask, sound⟩ := baseOf_iff.mp found
  obtain ⟨run, count, inside⟩ := loadRowIds_run late ids
  have start : base.start = fun i => i * getColumnTypeSize c.type :=
    (Option.some.inj ((startsOf_fixed fixed).symm.trans starts)).symm
  obtain ⟨result, outMask, mask', s', run', atResult, atMask, bits, keeps⟩ :=
    materializeExpression_run (getColumnTypeSize c.type) fresh bytes run mask
      ((known_buffers known).1 data) fun h hm => (known_buffers known).2.2 hm
  rw [← start] at atResult
  refine ⟨(newColumn c.rowIdCount c.type (some result) outMask).setUnique c.isUnique,
    s', ?_, ?_⟩
  · simp only [resolveTypeMaterializeExpression, nonempty, late, data]
    exact Proc.bind_ok run'
  · refine materialized_gathered (gather_starts sound start inside) bits rfl count.symm
      ⟨rfl, rfl⟩ rfl (by simp [late]) (rawOf_eq found ids) (fun string => absurd string fixed) rfl
        atResult (startsOf_fixed fixed) atMask ?_
    apply keeps.mono
    rintro h (rfl | hm)
    · exact ⟨by simp [late], rows, by simp [GPUColumn.buffers, data]⟩
    · exact ⟨by simp [late], rows, by simp [GPUColumn.buffers, Option.mem_def.mp hm]⟩

theorem resolveTypeMaterializeString_run (fresh : s.Fresh) (reached : c.rowIdCount ≤ 2 ^ 32)
    (known : ∀ h ∈ c.buffers, s.Known h) (string : c.type = .varchar) (rows : c.rowCount ≠ 0)
    (nonempty : isEmptyColumn c = false) (late : c.rowIds = some r)
    (found : baseOf s c = some base) (ids : idsOf s c = some rowIds) :
    ∃ c' s', resolveTypeMaterializeString c s = (.ok c', s') ∧
      Materialized s s' c c' (rowIds.map base.entry) := by
  obtain ⟨⟨d, data, chars⟩, starts, mask, sound⟩ := baseOf_iff.mp found
  obtain ⟨o, offsets', offset, atOffset, -, start⟩ := (startsOf_string string).mp starts
  obtain ⟨run, count, inside⟩ := loadRowIds_run late ids
  rw [← loadReachedRowIds_eq reached] at run
  obtain ⟨made, mask', s', run', atResult, atStarts, bytes, atMask, bits, keeps⟩ :=
    materializeString_run fresh sound start chars atOffset run count inside mask
      ((known_buffers known).1 data) ((known_buffers known).2.1 string offset)
      fun h hm => (known_buffers known).2.2 hm
  refine ⟨(newStringColumn c.rowIdCount c.type (some made.result) (some made.resultOffset)
    made.resultBytes c.dataWrapper.isStringData made.outMask).setUnique c.isUnique, s', ?_, ?_⟩
  · simp only [resolveTypeMaterializeString, nonempty, late, data, offset]
    exact Proc.bind_ok run'
  · have size : (gather base.bytes base.start rowIds).length = rowIds.length := by simp [gather]
    have room : c.rowIdCount < (offsets 0 (gather base.bytes base.start rowIds)).length := by
      rw [offsets_length, size]
      omega
    have starts' : startsOf s' ((newStringColumn c.rowIdCount c.type (some made.result)
        (some made.resultOffset) made.resultBytes c.dataWrapper.isStringData
        made.outMask).setUnique c.isUnique) =
        some fun j => (offsets 0 (gather base.bytes base.start rowIds)).getD j 0 := by
      apply startsOf_offsets
      · exact string
      · rfl
      · exact atStarts
      · exact room
    refine materialized_gathered ?_ bits rfl count.symm ⟨rfl, rfl⟩ rfl (by simp [late])
      (rawOf_eq found ids) ?_ rfl atResult starts' atMask ?_
    · intro j hj
      rw [offsets_get 0 _ (by rw [size]; exact hj), Nat.zero_add]
    · intro _ data
      simp [newStringColumn, GPUColumn.setUnique, data, bytes]
    · apply keeps.mono
      rintro h (rfl | rfl | hm)
      · exact ⟨by simp [late], rows, by simp [GPUColumn.buffers, data]⟩
      · exact ⟨by simp [late], rows, by simp [GPUColumn.buffers, string, offset]⟩
      · exact ⟨by simp [late], rows, by simp [GPUColumn.buffers, Option.mem_def.mp hm]⟩

/-- Materializing a column gives its logical content without row ids. -/
theorem handleMaterializeExpression_run (fresh : s.Fresh)
    (known : ∀ h, Consumed c h → s.Known h) (type : materializable c.type = true)
    (reached : Reached c) {values : List (Option Bytes)} (content : logical s c = some values) :
    ∃ c' s', handleMaterializeExpression c s = (.ok c', s') ∧ Materialized s s' c c' values := by
  have empty := isEmptyColumn_iff_of_logical content
  by_cases string : c.type = .varchar
  · have resolved : handleMaterializeExpression c = resolveTypeMaterializeString c := by
      unfold handleMaterializeExpression
      rw [string]
    rw [resolved]
    by_cases rows : c.rowCount = 0
    · refine ⟨newStringColumn 0 c.type none none 0 c.dataWrapper.isStringData none, s, ?_,
        materialized_empty fresh content rows rfl rfl ⟨rfl, rfl⟩ rfl⟩
      rw [resolveTypeMaterializeString, if_pos (empty.mpr rows)]
      rfl
    · have nonempty : isEmptyColumn c = false := by simpa [← empty] using rows
      cases late : c.rowIds with
      | none =>
        refine ⟨(newStringColumn c.columnLength c.type c.dataWrapper.data c.dataWrapper.offset
          c.dataWrapper.numBytes c.dataWrapper.isStringData c.dataWrapper.validityMask).setUnique
          c.isUnique, s, ?_, materialized_shared fresh content late rfl rfl ⟨rfl, rfl⟩ rfl rfl
          (fun _ => rfl) (fun _ data => ?_) rfl⟩
        · simp only [resolveTypeMaterializeString, nonempty, late]
          rfl
        · simp [newStringColumn, GPUColumn.setUnique, data]
      | some r =>
        obtain ⟨base, rowIds, found, ids, rfl⟩ := (logical_iff rows).mp content
        have known : ∀ h ∈ c.buffers, s.Known h := fun h hb => known h ⟨by simp [late], rows, hb⟩
        have near := reached string (by simp [late])
        exact resolveTypeMaterializeString_run fresh near known string rows nonempty late found ids
  · rw [handleMaterializeExpression_fixed type string]
    by_cases rows : c.rowCount = 0
    · refine ⟨newColumn 0 c.type none none, s, ?_,
        materialized_empty fresh content rows rfl rfl ⟨rfl, rfl⟩ rfl⟩
      rw [resolveTypeMaterializeExpression, if_pos (empty.mpr rows)]
      rfl
    · have nonempty : isEmptyColumn c = false := by simpa [← empty] using rows
      cases late : c.rowIds with
      | none =>
        refine ⟨(newColumn c.columnLength c.type c.dataWrapper.data
          c.dataWrapper.validityMask).setUnique c.isUnique, s, ?_, materialized_shared fresh
          content late rfl rfl ⟨rfl, rfl⟩ rfl rfl (fun h => absurd h string)
            (fun h => absurd h string) rfl⟩
        simp only [resolveTypeMaterializeExpression, nonempty, late]
        rfl
      | some r =>
        obtain ⟨base, rowIds, found, ids, rfl⟩ := (logical_iff rows).mp content
        have known : ∀ h ∈ c.buffers, s.Known h := fun h hb => known h ⟨by simp [late], rows, hb⟩
        exact resolveTypeMaterializeExpression_run fresh known string rows nonempty late found ids

end Materialized

section Losses

variable {P Q : State → Prop} {c : GPUColumn}

theorem loadRowIds_keeps (r : Handle) (count : Nat) :
    Triple P (loadRowIds r count) (fun _ => P) P := by
  apply Triple.bind (load_keeps _ _)
  intro ids
  apply Triple.ite
  · exact fun _ => Triple.ret fun _ h => h
  · exact fun _ => Triple.raise fun _ h => h

theorem loadReachedRowIds_keeps (r : Handle) (count : Nat) :
    Triple P (loadReachedRowIds r count) (fun _ => P) P := by
  apply Triple.ite
  · exact fun _ => loadRowIds_keeps r count
  · exact fun _ => Triple.raise fun _ h => h

theorem materializeMask_within {F : Handle → Prop} (within : Within F P) (m : Option Handle)
    (ids : List Nat) : Triple P (materializeMask m ids) (fun _ => P) P := by
  cases m with
  | none => exact Triple.ret fun _ h => h
  | some h =>
    apply Triple.bind (load_keeps _ _)
    intro words
    exact Triple.bind (within.customCudaMalloc _) fun _ => Triple.ret fun _ h => h

theorem materializeMask_stable (stable : Stable P) (m : Option Handle) (ids : List Nat) :
    Triple P (materializeMask m ids) (fun _ => P) P :=
  materializeMask_within (stable.within fun _ => True) m ids

theorem materializeExpression_within {F : Handle → Prop} (within : Within F P) (width : Nat)
    (a r : Handle) (count : Nat) (m : Option Handle) (freed : ∀ h, h = a ∨ h ∈ m → F h) :
    Triple P (materializeExpression width a r count m) (fun _ => P) P := by
  apply Triple.bind (load_keeps _ _)
  intro data
  apply Triple.bind (loadRowIds_keeps _ _)
  intro ids
  apply Triple.bind (within.customCudaMalloc _)
  intro result
  apply Triple.bind (materializeMask_within within _ _)
  intro outMask
  apply Triple.bind (within.customCudaFree (some a) (by rintro h ⟨⟩; exact freed _ (.inl rfl)))
  intro _
  exact Triple.bind (within.customCudaFree m fun h hm => freed h (.inr hm)) fun _ =>
    Triple.ret fun _ h => h

theorem materializeString_within {F : Handle → Prop} (within : Within F P) (d o r : Handle)
    (count : Nat) (m : Option Handle) (freed : ∀ h, h = d ∨ h = o ∨ h ∈ m → F h) :
    Triple P (materializeString d o r count m) (fun _ => P) P := by
  apply Triple.bind (load_keeps _ _)
  intro chars
  apply Triple.bind (load_keeps _ _)
  intro starts
  apply Triple.bind (loadReachedRowIds_keeps _ _)
  intro ids
  apply Triple.bind (within.customCudaMalloc _)
  intro resultOffset
  apply Triple.bind (materializeMask_within within _ _)
  intro outMask
  apply Triple.bind (within.customCudaMalloc _)
  intro result
  apply Triple.bind (within.customCudaFree (some d) (by rintro h ⟨⟩; exact freed _ (.inl rfl)))
  intro _
  apply Triple.bind (within.customCudaFree (some o)
    (by rintro h ⟨⟩; exact freed _ (.inr (.inl rfl))))
  intro _
  exact Triple.bind (within.customCudaFree m fun h hm => freed h (.inr (.inr hm))) fun _ =>
    Triple.ret fun _ h => h

/-- A column with row ids that is not empty consumes its buffers. -/
theorem consumed_of_late {r : Handle} (nonempty : ¬ isEmptyColumn c = true)
    (late : c.rowIds = some r) {h : Handle} (member : h ∈ c.buffers) : Consumed c h := by
  refine ⟨by simp [late], fun none => nonempty ?_, member⟩
  have count : c.rowIdCount = 0 := by simpa [GPUColumn.rowCount, late] using none
  simp [isEmptyColumn, late, count]

theorem resolveTypeMaterializeExpression_within {F : Handle → Prop} (within : Within F P)
    (freed : ∀ h, Consumed c h → F h) (width : Nat) :
    Triple P (resolveTypeMaterializeExpression width c) (fun _ => P) P := by
  unfold resolveTypeMaterializeExpression
  apply Triple.ite
  · exact fun _ => Triple.ret fun _ h => h
  · intro nonempty
    split
    · rename_i r d late data
      refine Triple.bind (materializeExpression_within within _ _ _ _ _ ?_) fun _ =>
        Triple.ret fun _ h => h
      intro h read
      apply freed h
      apply consumed_of_late nonempty late
      rcases read with rfl | mask
      · simp [GPUColumn.buffers, data]
      · simp [GPUColumn.buffers, Option.mem_def.mp mask]
    · exact Triple.ret fun _ h => h

theorem resolveTypeMaterializeString_within {F : Handle → Prop} (within : Within F P)
    (freed : ∀ h, Consumed c h → F h) (string : c.type = .varchar) :
    Triple P (resolveTypeMaterializeString c) (fun _ => P) P := by
  unfold resolveTypeMaterializeString
  apply Triple.ite
  · exact fun _ => Triple.ret fun _ h => h
  · intro nonempty
    split
    · rename_i r d late data
      split
      · exact Triple.raise fun _ h => h
      · rename_i o offset
        refine Triple.bind (materializeString_within within _ _ _ _ _ ?_) fun _ =>
          Triple.ret fun _ h => h
        intro h read
        apply freed h
        apply consumed_of_late nonempty late
        rcases read with rfl | rfl | mask
        · simp [GPUColumn.buffers, data]
        · simp [GPUColumn.buffers, string, offset]
        · simp [GPUColumn.buffers, Option.mem_def.mp mask]
    · exact Triple.ret fun _ h => h

/-- The type decides between the gather of fixed width, the gather of strings and an error. -/
theorem handleMaterializeExpression_cases (c : GPUColumn) :
    materializable c.type = true ∧ c.type ≠ .varchar ∧ (∃ width,
      handleMaterializeExpression c = resolveTypeMaterializeExpression width c) ∨
    c.type = .varchar ∧ handleMaterializeExpression c = resolveTypeMaterializeString c ∨
    ∃ e, handleMaterializeExpression c = Proc.raise e := by
  by_cases string : c.type = .varchar
  · refine .inr (.inl ⟨string, ?_⟩)
    unfold handleMaterializeExpression
    rw [string]
  · by_cases type : materializable c.type = true
    · exact .inl ⟨type, string, _, handleMaterializeExpression_fixed type string⟩
    · refine .inr (.inr ?_)
      unfold handleMaterializeExpression
      cases htype : c.type with
      | decimal width scale =>
        have narrow : width ≤ 4 := by simpa [materializable, htype] using type
        exact ⟨_, by simp [decimalTypeSize, narrow]; rfl⟩
      | int128 => exact ⟨_, rfl⟩
      | _ => simp [materializable, htype] at type

/-- A materialization frees no more than it consumes. -/
theorem handleMaterializeExpression_within {F : Handle → Prop} (within : Within F P)
    (freed : ∀ h, Consumed c h → F h) :
    Triple P (handleMaterializeExpression c) (fun _ => P) P := by
  rcases handleMaterializeExpression_cases c with ⟨-, -, width, run⟩ | ⟨string, run⟩ | ⟨e, run⟩
  · rw [run]
    exact resolveTypeMaterializeExpression_within within freed width
  · rw [run]
    exact resolveTypeMaterializeString_within within freed string
  · rw [run]
    exact Triple.raise fun _ h => h

theorem handleMaterializeExpression_stable (stable : Stable P) (c : GPUColumn) :
    Triple P (handleMaterializeExpression c) (fun _ => P) P :=
  handleMaterializeExpression_within (stable.within fun _ => True) fun _ _ => trivial

/-- What a free of one of the buffers establishes holds after the materialization. -/
theorem materializeExpression_frees (stableP : Stable P) (stableQ : Stable Q) {h : Handle}
    (free : Triple P (customCudaFree (some h)) (fun _ => Q) fun _ => True) {width count : Nat}
    {a r : Handle} {m : Option Handle} (consumed : h = a ∨ m = some h) :
    Triple P (materializeExpression width a r count m) (fun _ => Q) fun _ => True := by
  apply Triple.bind (load_keeps _ _).lax
  intro data
  apply Triple.bind (loadRowIds_keeps _ _).lax
  intro ids
  apply Triple.bind (stableP.customCudaMalloc _).lax
  intro result
  apply Triple.bind (materializeMask_stable stableP _ _).lax
  intro outMask
  rcases consumed with rfl | rfl
  · apply Triple.bind free
    intro _
    apply Triple.bind (stableQ.customCudaFree _).lax
    exact fun _ => Triple.ret fun _ h => h
  · apply Triple.bind (stableP.customCudaFree _).lax
    intro _
    exact Triple.bind free fun _ => Triple.ret fun _ h => h

theorem materializeString_frees (stableP : Stable P) (stableQ : Stable Q) {h : Handle}
    (free : Triple P (customCudaFree (some h)) (fun _ => Q) fun _ => True) {count : Nat}
    {d o r : Handle} {m : Option Handle} (consumed : h = d ∨ h = o ∨ m = some h) :
    Triple P (materializeString d o r count m) (fun _ => Q) fun _ => True := by
  apply Triple.bind (load_keeps _ _).lax
  intro chars
  apply Triple.bind (load_keeps _ _).lax
  intro starts
  apply Triple.bind (loadReachedRowIds_keeps _ _).lax
  intro ids
  apply Triple.bind (stableP.customCudaMalloc _).lax
  intro resultOffset
  apply Triple.bind (materializeMask_stable stableP _ _).lax
  intro outMask
  apply Triple.bind (stableP.customCudaMalloc _).lax
  intro result
  rcases consumed with rfl | rfl | rfl
  · apply Triple.bind free
    intro _
    apply Triple.bind (stableQ.customCudaFree _).lax
    intro _
    exact Triple.bind (stableQ.customCudaFree _).lax fun _ => Triple.ret fun _ h => h
  · apply Triple.bind (stableP.customCudaFree _).lax
    intro _
    apply Triple.bind free
    intro _
    exact Triple.bind (stableQ.customCudaFree _).lax fun _ => Triple.ret fun _ h => h
  · apply Triple.bind (stableP.customCudaFree _).lax
    intro _
    apply Triple.bind (stableP.customCudaFree _).lax
    intro _
    exact Triple.bind free fun _ => Triple.ret fun _ h => h

/-- A buffer that is gone is not read. -/
theorem load_gone {α : Type} (view : Content → Option α) (h : Handle) :
    Triple (Gone h) (load view h) (fun _ _ => False) fun _ => True := by
  rintro s ⟨-, gone⟩
  have missing : s.at view h = none := by simp [State.at, gone]
  unfold load
  rw [missing]
  trivial

theorem loadRowIds_gone (h : Handle) (count : Nat) :
    Triple (Gone h) (loadRowIds h count) (fun _ _ => False) fun _ => True :=
  Triple.bind (load_gone _ _) fun _ => Triple.unreachable

theorem loadReachedRowIds_gone (h : Handle) (count : Nat) :
    Triple (Gone h) (loadReachedRowIds h count) (fun _ _ => False) fun _ => True := by
  apply Triple.ite
  · exact fun _ => loadRowIds_gone h count
  · exact fun _ => Triple.raise fun _ _ => trivial

theorem materializeMask_gone (h : Handle) (ids : List Nat) :
    Triple (Gone h) (materializeMask (some h) ids) (fun _ _ => False) fun _ => True :=
  Triple.bind (load_gone _ _) fun _ => Triple.unreachable

theorem materializeExpression_gone {h : Handle} {width count : Nat} {a r : Handle}
    {m : Option Handle} (read : h = a ∨ h = r ∨ m = some h) :
    Triple (Gone h) (materializeExpression width a r count m) (fun _ _ => False)
      fun _ => True := by
  rcases read with rfl | rfl | rfl
  · exact Triple.bind (load_gone _ _) fun _ => Triple.unreachable
  · apply Triple.bind (load_keeps _ _).lax
    intro data
    exact Triple.bind (loadRowIds_gone _ _) fun _ => Triple.unreachable
  · apply Triple.bind (load_keeps _ _).lax
    intro data
    apply Triple.bind (loadRowIds_keeps _ _).lax
    intro ids
    apply Triple.bind ((gone_stable h).customCudaMalloc _).lax
    intro result
    exact Triple.bind (materializeMask_gone _ _) fun _ => Triple.unreachable

theorem materializeString_gone {h : Handle} {count : Nat} {d o r : Handle} {m : Option Handle}
    (read : h = d ∨ h = o ∨ h = r ∨ m = some h) :
    Triple (Gone h) (materializeString d o r count m) (fun _ _ => False) fun _ => True := by
  rcases read with rfl | rfl | rfl | rfl
  · exact Triple.bind (load_gone _ _) fun _ => Triple.unreachable
  · apply Triple.bind (load_keeps _ _).lax
    intro chars
    exact Triple.bind (load_gone _ _) fun _ => Triple.unreachable
  · apply Triple.bind (load_keeps _ _).lax
    intro chars
    apply Triple.bind (load_keeps _ _).lax
    intro starts
    exact Triple.bind (loadReachedRowIds_gone _ _) fun _ => Triple.unreachable
  · apply Triple.bind (load_keeps _ _).lax
    intro chars
    apply Triple.bind (load_keeps _ _).lax
    intro starts
    apply Triple.bind (loadReachedRowIds_keeps _ _).lax
    intro ids
    apply Triple.bind ((gone_stable h).customCudaMalloc _).lax
    intro resultOffset
    exact Triple.bind (materializeMask_gone _ _) fun _ => Triple.unreachable

theorem handleMaterializeExpression_frees (stableP : Stable P) (stableQ : Stable Q) {h : Handle}
    (free : Triple P (customCudaFree (some h)) (fun _ => Q) fun _ => True)
    (nonempty : isEmptyColumn c = false) (consumed : Consumed c h) :
    Triple P (handleMaterializeExpression c) (fun _ => Q) fun _ => True := by
  obtain ⟨late, -, member⟩ := consumed
  obtain ⟨r, late⟩ := Option.ne_none_iff_exists'.mp late
  obtain ⟨d, data⟩ : ∃ d, c.dataWrapper.data = some d := by
    rw [← Option.isSome_iff_exists]
    by_contra missing
    simp [isEmptyColumn, Option.not_isSome_iff_eq_none.mp missing] at nonempty
  rcases handleMaterializeExpression_cases c with ⟨-, fixed, width, run⟩ | ⟨string, run⟩ |
    ⟨e, run⟩
  · rw [run]
    simp only [resolveTypeMaterializeExpression, nonempty, late, data]
    have consumed : h = d ∨ c.dataWrapper.validityMask = some h := by
      simpa [GPUColumn.buffers, data, fixed] using member
    exact Triple.bind (materializeExpression_frees stableP stableQ free consumed) fun _ =>
      Triple.ret fun _ h => h
  · rw [run]
    simp only [resolveTypeMaterializeString, nonempty, late, data]
    cases offset : c.dataWrapper.offset with
    | none => exact Triple.raise fun _ _ => trivial
    | some o =>
      have consumed : h = d ∨ h = o ∨ c.dataWrapper.validityMask = some h := by
        simpa [GPUColumn.buffers, data, string, offset] using member
      exact Triple.bind (materializeString_frees stableP stableQ free consumed) fun _ =>
        Triple.ret fun _ h => h
  · rw [run]
    exact Triple.raise fun _ _ => trivial

/-- A column with row ids is not materialized from a buffer that is gone. -/
theorem handleMaterializeExpression_gone {h : Handle} (nonempty : isEmptyColumn c = false)
    (late : c.rowIds ≠ none) (read : h ∈ c.buffers ++ c.rowIds.toList) :
    Triple (Gone h) (handleMaterializeExpression c) (fun _ _ => False) fun _ => True := by
  obtain ⟨r, late⟩ := Option.ne_none_iff_exists'.mp late
  obtain ⟨d, data⟩ : ∃ d, c.dataWrapper.data = some d := by
    rw [← Option.isSome_iff_exists]
    by_contra missing
    simp [isEmptyColumn, Option.not_isSome_iff_eq_none.mp missing] at nonempty
  rcases handleMaterializeExpression_cases c with ⟨-, fixed, width, run⟩ | ⟨string, run⟩ |
    ⟨e, run⟩
  · rw [run]
    simp only [resolveTypeMaterializeExpression, nonempty, late, data]
    have read : h = d ∨ h = r ∨ c.dataWrapper.validityMask = some h := by
      have found : h = d ∨ c.dataWrapper.validityMask = some h ∨ h = r := by
        simpa [GPUColumn.buffers, data, fixed, late, or_assoc] using read
      tauto
    exact Triple.bind (materializeExpression_gone read) fun _ => Triple.unreachable
  · rw [run]
    simp only [resolveTypeMaterializeString, nonempty, late, data]
    cases offset : c.dataWrapper.offset with
    | none => exact Triple.raise fun _ _ => trivial
    | some o =>
      have read : h = d ∨ h = o ∨ h = r ∨ c.dataWrapper.validityMask = some h := by
        have found : (h = d ∨ h = o ∨ c.dataWrapper.validityMask = some h) ∨ h = r := by
          simpa [GPUColumn.buffers, data, string, offset, late, or_assoc] using read
        tauto
      exact Triple.bind (materializeString_gone read) fun _ => Triple.unreachable
  · rw [run]
    exact Triple.raise fun _ _ => trivial

/-- A materialization that returns has found all it frees in the tables. -/
theorem handleMaterializeExpression_known {s s' : State} {c' : GPUColumn} (fresh : s.Fresh)
    {values : List (Option Bytes)} (content : logical s c = some values)
    (run : handleMaterializeExpression c s = (.ok c', s')) :
    ∀ h, Consumed c h → s.Known h := by
  intro h consumed
  by_contra unknown
  have live := live_of_logical content consumed.2.1 h consumed.2.2
  have nonempty : isEmptyColumn c = false := by
    simpa [← isEmptyColumn_iff_of_logical content] using consumed.2.1
  have lost : Lost h s := ⟨fresh.not_new live, unknown⟩
  have never := handleMaterializeExpression_frees (lost_stable h) (Q := fun _ => False)
    ⟨fun _ _ h => h, fun _ _ h => h, fun _ _ _ h => h⟩ (customCudaFree_lost h) nonempty
    consumed s lost
  rw [run] at never
  exact never

/-- Strings beyond the reach of the kernels are not materialized. -/
theorem materializeString_unreached {d o r : Handle} {count : Nat} {m : Option Handle}
    (far : ¬ count ≤ 2 ^ 32) :
    Triple P (materializeString d o r count m) (fun _ _ => False) fun _ => True := by
  apply Triple.bind ((load_keeps _ _).pre fun _ _ => trivial).lax
  intro chars
  apply Triple.bind (load_keeps _ _).lax
  intro starts
  refine Triple.bind (Q := fun _ _ => False) ?_ fun _ => Triple.unreachable
  rw [loadReachedRowIds, if_neg far]
  exact Triple.raise fun _ _ => trivial

/-- A materialization that returns has reached all rows. -/
theorem handleMaterializeExpression_reached {s s' : State} {c' : GPUColumn}
    {values : List (Option Bytes)} (content : logical s c = some values)
    (run : handleMaterializeExpression c s = (.ok c', s')) : Reached c := by
  intro string late
  by_contra far
  obtain ⟨r, late⟩ := Option.ne_none_iff_exists'.mp late
  have nonempty : isEmptyColumn c = false := by
    have rows : c.rowCount ≠ 0 := by
      rw [GPUColumn.rowCount, late]
      exact fun none => far (by simp only [none]; omega)
    simpa [← isEmptyColumn_iff_of_logical content] using rows
  obtain ⟨d, data⟩ : ∃ d, c.dataWrapper.data = some d := by
    rw [← Option.isSome_iff_exists]
    by_contra missing
    simp [isEmptyColumn, Option.not_isSome_iff_eq_none.mp missing] at nonempty
  have never : Triple (fun _ => True) (handleMaterializeExpression c) (fun _ _ => False)
      fun _ => True := by
    unfold handleMaterializeExpression
    rw [string]
    simp only [resolveTypeMaterializeString, nonempty, late, data]
    cases offset : c.dataWrapper.offset with
    | none => exact Triple.raise fun _ _ => trivial
    | some o => exact Triple.bind (materializeString_unreached far) fun _ => Triple.unreachable
  have impossible := never s trivial
  rw [run] at impossible
  exact impossible

/-- A materialization that returns has materialized the column. -/
theorem handleMaterializeExpression_ok {s s' : State} {c' : GPUColumn} (fresh : s.Fresh)
    {values : List (Option Bytes)} (content : logical s c = some values)
    (run : handleMaterializeExpression c s = (.ok c', s')) : Materialized s s' c c' values := by
  have type : materializable c.type = true := by
    rcases handleMaterializeExpression_cases c with ⟨type, -⟩ | ⟨string, -⟩ | ⟨e, raise⟩
    · exact type
    · rw [string]
      rfl
    · rw [raise] at run
      cases run
  have known := handleMaterializeExpression_known fresh content run
  obtain ⟨c'', s'', run', materialized⟩ :=
    handleMaterializeExpression_run fresh known type
      (handleMaterializeExpression_reached content run) content
  rw [run] at run'
  cases run'
  exact materialized

end Losses

end Materialize
