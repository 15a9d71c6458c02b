import SiriusGpu.HostColumns
import Mathlib.Tactic.FieldSimp

/-!
# Chunks of the result

The chunks are the blocks of 2048 rows of the host columns. A row of a chunk reads
its values at its place in the block, and its NULL flag at its place in the first
block.
-/

namespace ResultChunks

open ThrowingState ColumnFormat GpuColumns ResultCollector HostColumns
open GpuMemory (Bytes)

section Filling

variable {types : List LogicalType} {hosts : List HostColumn}

/-- The places of a range in blocks of one width. -/
theorem range_blocks {β : Type} (f : Nat → β) (n width blocks : Nat) :
    ((List.range blocks).flatMap fun block =>
      (List.range (min (n - block * width) width)).map fun place => f (block * width + place)) =
      (List.range (min n (blocks * width))).map f := by
  induction blocks with
  | zero => simp
  | succ blocks ih =>
    have size : min n ((blocks + 1) * width) =
        min n (blocks * width) + min (n - blocks * width) width := by
      rw [Nat.add_one_mul]
      omega
    rw [List.range_succ, List.flatMap_append, ih, size, List.range_add, List.map_append,
      List.map_map]
    congr 1
    simp only [List.flatMap_cons, List.flatMap_nil, List.append_nil]
    apply List.map_congr_left
    intro place hp
    have below := List.mem_range.mp hp
    have start : min n (blocks * width) = blocks * width := by omega
    simp only [Function.comp_apply, start]

/-- Whether `Vector::Reference` takes the vectors of a host column. -/
def referable (planned : LogicalType) (host : HostColumn) : Bool :=
  planned.sameId (vectorOf planned host 0 0).type

theorem vectorOf_type (planned : LogicalType) (host : HostColumn) (vec readIndex : Nat) :
    (vectorOf planned host vec readIndex).type = (vectorOf planned host 0 0).type := by
  unfold vectorOf
  split
  · rfl
  · split <;> rfl

def chunkAt (types : List LogicalType) (hosts : List HostColumn) (rows vec : Nat) : DataChunk where
  data := (types.zip hosts).map fun x =>
    { vectorOf x.1 x.2 vec (vec * standardVectorSize) with type := x.1 }
  size := min (rows - vec * standardVectorSize) standardVectorSize

theorem mapM_reference (columns : List (LogicalType × HostColumn)) (vec readIndex : Nat) :
    (columns.mapM fun x => reference x.1 (vectorOf x.1 x.2 vec readIndex)) =
      if columns.all fun x => referable x.1 x.2 then
        .ok (columns.map fun x => { vectorOf x.1 x.2 vec readIndex with type := x.1 })
      else .error (.internal "Vector::Reference used on vector of different type") := by
  induction columns with
  | nil => rfl
  | cons x rest ih =>
    rw [List.mapM_cons, ih, reference, vectorOf_type]
    by_cases first : referable x.1 x.2 = true
    · have first' : x.1.sameId (vectorOf x.1 x.2 0 0).type = true := first
      rw [if_pos first']
      by_cases others : (rest.all fun x => referable x.1 x.2) = true
      · simp only [others, if_true, List.all_cons, first, Bool.true_and]
        rfl
      · simp only [others, List.all_cons, first, Bool.true_and]
        rfl
    · have first' : ¬ x.1.sameId (vectorOf x.1 x.2 0 0).type = true := first
      rw [if_neg first', List.all_cons]
      simp only [first, Bool.false_and]
      rfl

theorem makeChunk_run (ready : (types.zip hosts).all (fun x => referable x.1 x.2) = true)
    (rows vec : Nat) : makeChunk types hosts vec (vec * standardVectorSize)
      (min (rows - vec * standardVectorSize) standardVectorSize) =
        .ok (chunkAt types hosts rows vec) := by
  have mapped := mapM_reference (types.zip hosts) vec (vec * standardVectorSize)
  rw [if_pos ready] at mapped
  unfold makeChunk
  rw [mapped]
  rfl

theorem makeChunk_raise (unready : ¬ (types.zip hosts).all (fun x => referable x.1 x.2) = true)
    (vec readIndex size : Nat) : ∃ e, makeChunk types hosts vec readIndex size = .error e := by
  have mapped := mapM_reference (types.zip hosts) vec readIndex
  rw [if_neg unready] at mapped
  refine ⟨.internal "Vector::Reference used on vector of different type", ?_⟩
  unfold makeChunk
  rw [mapped]
  rfl

open GPUResultCollection

/-- The chunks that are added are written one behind the other. -/
theorem addChunks_run (ready : (types.zip hosts).all (fun x => referable x.1 x.2) = true)
    (rows count vec : Nat)
    (last : vec + count = (rows + standardVectorSize - 1) / standardVectorSize)
    (results : GPUResultCollection) (room : results.writeIdx + count ≤ results.dataChunks.length) :
    ∃ results', addChunks types hosts count vec (vec * standardVectorSize)
        (rows - vec * standardVectorSize) results = (.ok (), results') ∧
      results'.writeIdx = results.writeIdx + count ∧ results'.readIdx = results.readIdx ∧
      (∀ i < results.writeIdx, results'.dataChunks[i]? = results.dataChunks[i]?) ∧
      ∀ i < count, results'.dataChunks[results.writeIdx + i]? =
        some (chunkAt types hosts rows (vec + i)) := by
  induction count generalizing vec results with
  | zero => exact ⟨results, rfl, rfl, rfl, fun _ _ => rfl, fun i hi => absurd hi (by omega)⟩
  | succ count ih =>
    have inside : vec * standardVectorSize < rows := by
      unfold standardVectorSize at last ⊢
      omega
    let added : GPUResultCollection := { results with
      numRows := results.numRows + (chunkAt types hosts rows vec).size
      dataChunks := results.dataChunks.set results.writeIdx (chunkAt types hosts rows vec)
      writeIdx := results.writeIdx + 1 }
    have free : results.writeIdx < results.dataChunks.length := by omega
    have add : addChunk (chunkAt types hosts rows vec) results = (.ok (), added) := if_pos free
    have size : added.dataChunks.length = results.dataChunks.length := List.length_set ..
    obtain ⟨results', run, write, read, before, chunks⟩ := ih (vec + 1) (by omega) added
      (by rw [size]; change results.writeIdx + 1 + count ≤ _; omega)
    refine ⟨results', ?_, ?_, read, ?_, ?_⟩
    · rw [addChunks, makeChunk_run ready]
      simp only
      rw [Proc.bind_ok add]
      cases count with
      | zero =>
        rw [addChunks] at run ⊢
        exact run
      | succ count =>
        have full : min (rows - vec * standardVectorSize) standardVectorSize =
            standardVectorSize := by
          unfold standardVectorSize at last ⊢
          omega
        rw [full, ← Nat.add_one_mul]
        have left : rows - vec * standardVectorSize - standardVectorSize =
            rows - (vec + 1) * standardVectorSize := by
          rw [Nat.add_one_mul]
          omega
        rw [left]
        exact run
    · rw [write]
      change results.writeIdx + 1 + count = _
      omega
    · intro i hi
      rw [before i (by change i < results.writeIdx + 1; omega)]
      exact List.getElem?_set_ne (by omega)
    · intro i hi
      cases i with
      | zero =>
        rw [Nat.add_zero, Nat.add_zero, before _ (by change _ < results.writeIdx + 1; omega)]
        exact List.getElem?_set_self (by omega)
      | succ i =>
        have next := chunks i (by omega)
        have place : added.writeIdx + i = results.writeIdx + (i + 1) := by
          change results.writeIdx + 1 + i = _
          omega
        have number : vec + 1 + i = vec + (i + 1) := by omega
        rw [place, number] at next
        exact next

/-- Chunks that have been added were taken by their vectors and lie within the array. -/
theorem addChunks_ok (count vec readIndex : Nat) {remaining : Nat} (some : count ≠ 0)
    {results results' : GPUResultCollection}
    (run : addChunks types hosts count vec readIndex remaining results = (.ok (), results')) :
    (types.zip hosts).all (fun x => referable x.1 x.2) = true ∧
      results.writeIdx + count ≤ results.dataChunks.length := by
  induction count generalizing vec readIndex remaining results with
  | zero => exact absurd rfl some
  | succ count ih =>
    have ready : (types.zip hosts).all (fun x => referable x.1 x.2) = true := by
      by_contra unready
      obtain ⟨e, raise⟩ := makeChunk_raise unready vec readIndex (min remaining standardVectorSize)
      rw [addChunks, raise] at run
      cases run
    refine ⟨ready, ?_⟩
    rw [addChunks] at run
    cases made : makeChunk types hosts vec readIndex (min remaining standardVectorSize) with
    | error e =>
      rw [made] at run
      cases run
    | ok chunk =>
      rw [made] at run
      simp only at run
      by_cases free : results.writeIdx < results.dataChunks.length
      · have add : addChunk chunk results = (.ok (), { results with
            numRows := results.numRows + chunk.size
            dataChunks := results.dataChunks.set results.writeIdx chunk
            writeIdx := results.writeIdx + 1 }) := if_pos free
        rw [Proc.bind_ok add] at run
        by_cases more : count = 0
        · omega
        · have later := (ih (vec + 1) _ more run).2
          simp only [List.length_set] at later
          omega
      · have full : addChunk chunk results = (.error .fault, results) := if_neg free
        rw [Proc.bind_error full] at run
        cases run

theorem getNext_run {results : GPUResultCollection} {chunk : DataChunk}
    (left : results.readIdx < results.writeIdx)
    (found : results.dataChunks[results.readIdx]? = some chunk) :
    getNext results = (.ok (some chunk), { results with
      readIdx := results.readIdx + 1, numRows := results.numRows - chunk.size }) := by
  rw [getNext, if_neg (Nat.not_le_of_lt left), found]

theorem fetched_chunks (chunks : Nat → DataChunk) {results : GPUResultCollection} {left : Nat}
    (write : results.writeIdx = results.readIdx + left)
    (filled : ∀ i < left, results.dataChunks[results.readIdx + i]? = some (chunks i)) :
    Fetched results ((List.range left).map chunks) := by
  induction left generalizing results chunks with
  | zero => exact .done (if_pos (by omega))
  | succ left ih =>
    rw [List.range_succ_eq_map, List.map_cons, List.map_map]
    refine .next (getNext_run (by omega) (filled 0 (by omega))) (ih (chunks ∘ Nat.succ) ?_ ?_)
    · change results.writeIdx = results.readIdx + 1 + left
      omega
    · intro i hi
      have next := filled (i + 1) (by omega)
      have place : results.readIdx + (i + 1) = results.readIdx + 1 + i := by omega
      rw [place] at next
      exact next

theorem fetched_unique {results : GPUResultCollection} {chunks chunks' : List DataChunk}
    (first : Fetched results chunks) (second : Fetched results chunks') : chunks = chunks' := by
  induction first generalizing chunks' with
  | done last =>
    cases second with
    | done _ => rfl
    | next again _ =>
      rw [last] at again
      cases again
  | next once _ ih =>
    cases second with
    | done last =>
      rw [last] at once
      cases once
    | next again rest =>
      rw [once] at again
      cases again
      rw [ih rest]

end Filling

section Cells

variable {cast : DecimalCast} {planned : LogicalType} {type : GPUColumnType}
  {pieces : List Bytes} {i : Nat}

/-- The width of an entry on the host. -/
def hostWidth (planned : LogicalType) (type : GPUColumnType) : Nat :=
  if planned.isInt128 ∧ planned.sameId (.decimal 0 0) = false then 16
  else getColumnTypeSize (hostType planned type)

/-- Where the vector of a row reads it, when its entries have a width and those of the planned
type have another. -/
def readPlace (width size i : Nat) : Nat :=
  i / standardVectorSize * standardVectorSize * width + i % standardVectorSize * size

/-- What is read for a row that is taken to be valid. -/
def shown (cast : DecimalCast) (planned : LogicalType) (type : GPUColumnType)
    (pieces : List Bytes) (i : Nat) : Value :=
  if type = .varchar then
    match pieces[i]? with
    | some chars => planned.read chars
    | none => .undefined
  else
    let place := readPlace (hostWidth planned type) planned.size i
    planned.read (slice (pieces.map (hostEntry cast planned type)).flatten place
      (place + planned.size))

theorem hostType_varchar : hostType planned type = .varchar ↔ type = .varchar := by
  unfold hostType
  split
  · cases type <;> cases planned <;> simp
  · rfl

theorem cell_vectorOf {valid : Nat → Bool} {host : HostColumn}
    (hosted : Hosted cast planned type pieces valid host) (vec row : Nat)
    (inside : vec * standardVectorSize + row < pieces.length) (small : row < standardVectorSize) :
    ({ vectorOf planned host vec (vec * standardVectorSize) with
        type := planned } : ResultCollector.Vector).cell
      row = if valid row then
        some (shown cast planned type pieces (vec * standardVectorSize + row)) else none := by
  have bit := hosted.mask row (by omega)
  have place : (vec * standardVectorSize + row) / standardVectorSize = vec ∧
      (vec * standardVectorSize + row) % standardVectorSize = row := by
    unfold standardVectorSize at *
    omega
  have data := hosted.data
  have htype := hosted.type
  by_cases string : type = .varchar
  · rw [if_pos string] at data
    have hostString : host.type = .varchar := htype.trans (hostType_varchar.mpr string)
    simp only [vectorOf, hostString, if_true, Vector.cell, bit, data, shown, string]
    congr 1
    cases pieces[vec * standardVectorSize + row]? <;> rfl
  · rw [if_neg string] at data
    have typeFixed : ¬ hostType planned type = .varchar := by rwa [hostType_varchar]
    have hostFixed : ¬ host.type = .varchar := by rwa [htype]
    by_cases big : planned.isInt128 = true ∧ planned.sameId (.decimal 0 0) = false
    · simp only [vectorOf, hostFixed, if_false, big, and_self, if_true, rawDataToVector,
        Vector.cell, bit, data, shown, string, hostWidth, readPlace, place]
      rfl
    · simp only [vectorOf, typeFixed, if_false, big, rawDataToVector, Vector.cell, bit, data,
        shown, string, hostWidth, readPlace, place, htype]

/-- The planned types a column may be delivered as. -/
def deliverable (planned : LogicalType) (type : GPUColumnType) : Bool :=
  finalMaterializable type &&
    match planned, type with
    | .hugeint, .int16 | .hugeint, .int32 | .hugeint, .int64 => true
    | .decimal _ _, .decimal _ _ => true
    | _, _ => planned = columnTypeToLogicalType type

theorem deliverable_iff {host : HostColumn} (htype : host.type = hostType planned type) :
    (finalMaterializable type = true ∧ (type ≠ .varchar → convertible planned type = true)) ∧
      referable planned host = true ↔ deliverable planned type = true := by
  by_cases final : finalMaterializable type = true
  · cases type with
    | int128 => simp [finalMaterializable] at final
    | varchar =>
      have hostString : host.type = .varchar := htype.trans (hostType_varchar.mpr rfl)
      cases planned <;>
        simp [deliverable, referable, vectorOf, hostString, finalMaterializable,
          LogicalType.sameId, columnTypeToLogicalType]
    | decimal width scale =>
      cases planned with
      | decimal toWidth toScale =>
        by_cases big : 18 < toWidth <;>
          simp [deliverable, referable, vectorOf, htype, hostType, convertible, final, big,
            LogicalType.isInt128, LogicalType.sameId, rawDataToVector, columnTypeToLogicalType]
      | _ =>
        simp [deliverable, referable, vectorOf, htype, hostType, convertible, final,
          LogicalType.isInt128, LogicalType.sameId, rawDataToVector, columnTypeToLogicalType]
    | _ =>
      cases planned with
      | decimal toWidth toScale =>
        by_cases big : 18 < toWidth <;>
          simp [deliverable, referable, vectorOf, htype, hostType, convertible, final, big,
            LogicalType.isInt128, LogicalType.sameId, rawDataToVector, columnTypeToLogicalType]
      | _ =>
        simp [deliverable, referable, vectorOf, htype, hostType, convertible, final,
          LogicalType.isInt128, LogicalType.sameId, rawDataToVector, columnTypeToLogicalType]
  · simp [deliverable, final]

/-- What is documented of a cast to decimals of 16 bytes: a value that has a representation at
the new scale keeps it. -/
structure ExactCast (cast : DecimalCast) : Prop where
  length : ∀ size scale toSize toScale bytes,
    (cast size scale toSize toScale bytes).length = toSize
  exact : ∀ size scale toScale bytes (y : Int), bytes.length = size → -2 ^ 127 ≤ y → y < 2 ^ 127 →
    y * 10 ^ scale = signed bytes * 10 ^ toScale → signed (cast size scale 16 toScale bytes) = y

/-- The cast that cuts off the digits the new scale has no place for. -/
def rescale : DecimalCast := fun _ scale toSize toScale bytes =>
  encode toSize ((signed bytes * 10 ^ toScale).tdiv (10 ^ scale))

theorem rescale_exact : ExactCast rescale := by
  constructor
  · intro size scale toSize toScale bytes
    exact bytesOf_length _ _
  · intro size scale toScale bytes y _ low high equal
    have scaled : (signed bytes * 10 ^ toScale).tdiv (10 ^ scale) = y := by
      rw [← equal]
      exact Int.mul_tdiv_cancel y (by positivity)
    rw [rescale, scaled]
    apply signed_encode <;> norm_num <;> omega

/-- When a valid entry is delivered with its value. -/
def KeepsEntry (planned : LogicalType) (type : GPUColumnType) (pieces : List Bytes) (i : Nat)
    (piece : Bytes) : Prop :=
  match planned, type with
  | .hugeint, _ => 0 ≤ signed piece
  | .decimal toWidth toScale, .decimal width scale =>
    if 18 < toWidth then
      ∃ y : Int, -2 ^ 127 ≤ y ∧ y < 2 ^ 127 ∧ y * 10 ^ scale = signed piece * 10 ^ toScale
    else
      decimalTypeSize width = decimalTypeSize toWidth ∧ scale = toScale ∨
        let place := readPlace (getColumnTypeSize type) planned.size i
        planned.read (slice pieces.flatten place (place + planned.size)) = valueOf type piece
  | _, _ => True

theorem slice_place {entries : List Bytes} {width : Nat}
    (widths : ∀ piece ∈ entries, piece.length = width) (inside : i < entries.length) :
    slice entries.flatten (readPlace width width i) (readPlace width width i + width) =
      entries[i] := by
  have place : readPlace width width i = i * width := by
    rw [readPlace, ← Nat.add_mul]
    congr 1
    unfold standardVectorSize
    omega
  rw [place, ← Nat.add_one_mul, slice_multiple entries widths inside]

theorem number_eq_iff (a b : Int) (m n : Nat) :
    Value.number ((a : ℚ) / 10 ^ m) = .number ((b : ℚ) / 10 ^ n) ↔
      a * 10 ^ n = b * 10 ^ m := by
  have hm : (10 : ℚ) ^ m ≠ 0 := pow_ne_zero _ (by norm_num)
  have hn : (10 : ℚ) ^ n ≠ 0 := pow_ne_zero _ (by norm_num)
  rw [Value.number.injEq, div_eq_div_iff hm hn]
  exact_mod_cast Iff.rfl

/-- A vector shows an entry of its own width. -/
theorem shown_entry (fixed : type ≠ .varchar) (inside : i < pieces.length)
    (widths : ∀ piece ∈ pieces, (hostEntry cast planned type piece).length = planned.size)
    (same : hostWidth planned type = planned.size) :
    shown cast planned type pieces i = planned.read (hostEntry cast planned type pieces[i]) := by
  have entries : ∀ entry ∈ pieces.map (hostEntry cast planned type),
      entry.length = planned.size := by
    intro entry member
    obtain ⟨piece, hp, rfl⟩ := List.mem_map.mp member
    exact widths piece hp
  have inside' : i < (pieces.map (hostEntry cast planned type)).length := by simpa using inside
  rw [shown, if_neg fixed, same]
  simp only
  rw [slice_place entries inside', List.getElem_map]

section Kinds

variable (inside : i < pieces.length)
include inside

theorem shown_varchar : shown cast .varchar .varchar pieces i = valueOf .varchar pieces[i] := by
  simp [shown, inside, valueOf, columnTypeToLogicalType]

/-- An integer read as `HUGEINT` is the value its bytes have without a sign. -/
theorem shown_hugeint (integer : type = .int16 ∨ type = .int32 ∨ type = .int64)
    (widths : ∀ piece ∈ pieces, piece.length = getColumnTypeSize type) :
    shown cast .hugeint type pieces i = valueOf type pieces[i] ↔ 0 ≤ signed pieces[i] := by
  have member : pieces[i] ∈ pieces := List.getElem_mem inside
  have fixed : type ≠ .varchar := by rcases integer with rfl | rfl | rfl <;> decide
  have narrow : getColumnTypeSize type < 16 := by rcases integer with rfl | rfl | rfl <;> decide
  have entry : ∀ piece, hostEntry cast .hugeint type piece =
      piece ++ List.replicate (16 - getColumnTypeSize type) 0 := by
    intro piece
    rcases integer with rfl | rfl | rfl <;> rfl
  have sizes : ∀ piece ∈ pieces, (hostEntry cast .hugeint type piece).length =
      LogicalType.hugeint.size := by
    intro piece hp
    rw [entry, List.length_append, List.length_replicate, widths piece hp]
    change _ = 16
    omega
  have wide := sizes _ member
  rw [shown_entry fixed inside sizes rfl, entry]
  rw [entry] at wide
  have read : LogicalType.hugeint.read
      (pieces[i] ++ List.replicate (16 - getColumnTypeSize type) 0) =
      .number (unsigned pieces[i] : Int) := by
    simp only [LogicalType.read, wide, if_true]
    rw [signed_zeros _ (by omega)]
  have own : valueOf type pieces[i] = .number (signed pieces[i]) := by
    rcases integer with rfl | rfl | rfl <;> exact if_pos (widths _ member)
  rw [read, own, ← signed_eq_unsigned_iff, Value.number.injEq]
  exact_mod_cast Iff.rfl

variable {width scale toWidth toScale : Nat}

theorem valueOf_decimal (widths : ∀ piece ∈ pieces, piece.length = decimalTypeSize width) :
    valueOf (.decimal width scale) pieces[i] =
      .number ((signed pieces[i] : ℚ) / 10 ^ scale) :=
  if_pos (widths _ (List.getElem_mem inside))

/-- A decimal of 16 bytes shows the value if the planned scale can represent it. -/
theorem shown_castDecimal (exact : ExactCast cast) (big : 18 < toWidth)
    (widths : ∀ piece ∈ pieces, piece.length = decimalTypeSize width) :
    shown cast (.decimal toWidth toScale) (.decimal width scale) pieces i =
        valueOf (.decimal width scale) pieces[i] ↔
      ∃ y : Int, -2 ^ 127 ≤ y ∧ y < 2 ^ 127 ∧
        y * 10 ^ scale = signed pieces[i] * 10 ^ toScale := by
  have isBig : (LogicalType.decimal toWidth toScale).isInt128 = true := decide_eq_true big
  have size : decimalTypeSize toWidth = 16 := by
    unfold decimalTypeSize
    split_ifs <;> omega
  have entry : ∀ piece, hostEntry cast (.decimal toWidth toScale) (.decimal width scale) piece =
      cast (decimalTypeSize width) scale 16 toScale piece := by
    intro piece
    rw [hostEntry, if_pos isBig, size]
  have sizes : ∀ piece ∈ pieces,
      (hostEntry cast (.decimal toWidth toScale) (.decimal width scale) piece).length =
        (LogicalType.decimal toWidth toScale).size := by
    intro piece _
    rw [entry, exact.length]
    exact size.symm
  have same : hostWidth (.decimal toWidth toScale) (.decimal width scale) =
      (LogicalType.decimal toWidth toScale).size := by
    simp [hostWidth, hostType, isBig, LogicalType.sameId, getColumnTypeSize, LogicalType.size]
  rw [shown_entry (by simp) inside sizes same, entry, valueOf_decimal inside widths]
  have length := exact.length (decimalTypeSize width) scale 16 toScale pieces[i]
  have read : (LogicalType.decimal toWidth toScale).read
      (cast (decimalTypeSize width) scale 16 toScale pieces[i]) =
      .number ((signed (cast (decimalTypeSize width) scale 16 toScale pieces[i]) : ℚ) /
        10 ^ toScale) := by
    apply if_pos
    rw [length]
    exact size.symm
  rw [read, number_eq_iff]
  constructor
  · intro equal
    have range := signed_range (cast (decimalTypeSize width) scale 16 toScale pieces[i])
    rw [length] at range
    refine ⟨_, ?_, ?_, equal⟩ <;> norm_num at range ⊢ <;> omega
  · rintro ⟨y, low, high, equal⟩
    rw [exact.exact _ _ _ _ y (widths _ (List.getElem_mem inside)) low high equal]
    exact equal

/-- A smaller decimal is read where one of the planned width would lie. -/
theorem shown_decimal (small : ¬ 18 < toWidth)
    (widths : ∀ piece ∈ pieces, piece.length = decimalTypeSize width) :
    shown cast (.decimal toWidth toScale) (.decimal width scale) pieces i =
        valueOf (.decimal width scale) pieces[i] ↔
      KeepsEntry (.decimal toWidth toScale) (.decimal width scale) pieces i pieces[i] := by
  have notBig : (LogicalType.decimal toWidth toScale).isInt128 = false := decide_eq_false small
  have plain : hostEntry cast (.decimal toWidth toScale) (.decimal width scale) = id := by
    funext piece
    simp [hostEntry, notBig]
  have hostWidth_eq : hostWidth (.decimal toWidth toScale) (.decimal width scale) =
      decimalTypeSize width := by
    simp [hostWidth, hostType, notBig, getColumnTypeSize]
  have read : shown cast (.decimal toWidth toScale) (.decimal width scale) pieces i =
      (LogicalType.decimal toWidth toScale).read (slice pieces.flatten
        (readPlace (decimalTypeSize width) (LogicalType.decimal toWidth toScale).size i)
        (readPlace (decimalTypeSize width) (LogicalType.decimal toWidth toScale).size i +
          (LogicalType.decimal toWidth toScale).size)) := by
    rw [shown, if_neg (by simp), plain, List.map_id, hostWidth_eq]
  simp only [KeepsEntry, small, if_false]
  constructor
  · intro equal
    exact .inr (read.symm.trans equal)
  · rintro (⟨size, rfl⟩ | equal)
    · have sizes : (LogicalType.decimal toWidth scale).size = decimalTypeSize width := size.symm
      rw [read, sizes, slice_place widths inside, valueOf_decimal inside widths]
      apply if_pos
      rw [sizes]
      exact widths _ (List.getElem_mem inside)
    · exact read.trans equal

/-- A column of the planned type shows its values. -/
theorem shown_same (fixed : type ≠ .varchar) (notBig : planned.isInt128 = false)
    (size : planned.size = getColumnTypeSize type) (same : planned = columnTypeToLogicalType type)
    (widths : ∀ piece ∈ pieces, piece.length = getColumnTypeSize type) :
    shown cast planned type pieces i = valueOf type pieces[i] := by
  have plain : hostEntry cast planned type = id := by
    funext piece
    simp [hostEntry, notBig]
  have sizes : ∀ piece ∈ pieces, (hostEntry cast planned type piece).length = planned.size := by
    intro piece hp
    rw [plain, size]
    exact widths piece hp
  have width : hostWidth planned type = planned.size := by
    simp [hostWidth, hostType, notBig, size]
  rw [shown_entry fixed inside sizes width, plain, same]
  rfl

theorem shown_eq_iff (exact : ExactCast cast) (ready : deliverable planned type = true)
    (widths : type ≠ .varchar → ∀ piece ∈ pieces, piece.length = getColumnTypeSize type) :
    shown cast planned type pieces i = valueOf type pieces[i] ↔
      KeepsEntry planned type pieces i pieces[i] := by
  cases hplanned : planned with
  | hugeint =>
    have integer : type = .int16 ∨ type = .int32 ∨ type = .int64 := by
      rw [hplanned] at ready
      cases type <;> simp [deliverable, finalMaterializable, columnTypeToLogicalType] at ready ⊢
    have fixed : type ≠ .varchar := by rcases integer with rfl | rfl | rfl <;> decide
    rw [shown_hugeint inside integer (widths fixed)]
    rcases integer with rfl | rfl | rfl <;> rfl
  | decimal toWidth toScale =>
    obtain ⟨width, scale, rfl⟩ : ∃ width scale, type = .decimal width scale := by
      rw [hplanned] at ready
      cases type <;> simp [deliverable, finalMaterializable, columnTypeToLogicalType] at ready ⊢
    have widths' := widths (by simp)
    by_cases big : 18 < toWidth
    · rw [shown_castDecimal inside exact big widths']
      simp only [KeepsEntry, big, if_true]
    · exact shown_decimal inside big widths'
  | varchar =>
    obtain rfl : type = .varchar := by
      rw [hplanned] at ready
      cases type <;> simp [deliverable, finalMaterializable, columnTypeToLogicalType] at ready ⊢
    rw [shown_varchar inside]
    exact iff_of_true rfl trivial
  | uuid =>
    rw [hplanned] at ready
    cases type <;> simp [deliverable, columnTypeToLogicalType] at ready
  | _ =>
    have kinds : planned = columnTypeToLogicalType type ∧ type ≠ .varchar ∧
        planned.size = getColumnTypeSize type := by
      rw [hplanned] at ready ⊢
      cases type <;>
        simp [deliverable, finalMaterializable, columnTypeToLogicalType] at ready ⊢ <;> rfl
    rw [hplanned] at kinds
    rw [shown_same inside kinds.2.1 rfl kinds.2.2 kinds.1 (widths kinds.2.1)]
    exact iff_of_true rfl trivial

end Kinds

end Cells

end ResultChunks
