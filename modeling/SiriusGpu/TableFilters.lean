import SiriusGpu.BlockCompaction
import SiriusGpu.StringComparison
import SiriusGpu.GpuColumns
import SiriusGpu.FallibleMaps
import Mathlib.Data.Nat.Digits.Defs

/-!
# Filters of a table scan

The scan collects the constant comparisons of its filters, packs their constants
into one array of bytes in two passes, and a kernel compares every row with them
and compacts the row ids of those it selects.

Values are the bytes of their type, the lowest first. A slot of the packed arrays
that neither pass writes keeps what the buffer held before; what the kernel makes
of it on a valid row is a parameter. The row id column and the projection of the
scan are not modelled.
-/

namespace TableFilters

open StringComparison BlockCompaction ColumnFormat FallibleMaps
open GpuColumns (GPUColumnType getColumnTypeSize)

abbrev Bytes := List UInt8

/-- A cached column: which rows are valid, and their bytes. -/
structure Column where
  type : GPUColumnType
  valid : Nat → Bool
  cell : Nat → Bytes

/-- A filter on one column; `other` is any further kind, by the rows it keeps. -/
inductive SimpleFilter where
  | constantComparison (op : Comparison) (constant : Option Bytes)
  | isNotNull
  | optionalFilter
  | other (keeps : Nat → Bool)

inductive TableFilter where
  | simple (filter : SimpleFilter)
  | conjunctionAnd (children : List SimpleFilter)

/-- A scan of a cached table: the filters are numbered by the scanned columns. -/
structure Scan where
  rows : Nat
  columns : List Column
  columnIds : List Nat
  names : Nat
  filters : List (Nat × TableFilter)

/-! ## What a filter asks for -/

section Meaning

def unsignedValue (bytes : Bytes) : Nat := Nat.ofDigits 256 (bytes.map UInt8.toNat)

/-- Two's complement. -/
def signedValue (bytes : Bytes) : Int :=
  if 2 * unsignedValue bytes < 256 ^ bytes.length then unsignedValue bytes
  else unsignedValue bytes - 256 ^ bytes.length

/-- The place of a floating-point number among the others; `none` is no number. The sign is
the highest bit, and below it a larger number has the larger bits. -/
def floatKey (exponentBits mantissaBits : Nat) (bytes : Bytes) : Option Int :=
  let magnitude := unsignedValue bytes % 2 ^ (exponentBits + mantissaBits)
  if (2 ^ exponentBits - 1) * 2 ^ mantissaBits < magnitude then none
  else if unsignedValue bytes < 2 ^ (exponentBits + mantissaBits) then some magnitude
  else some (-magnitude)

def float32Key (bytes : Bytes) : Option Int := floatKey 8 23 bytes

def float64Key (bytes : Bytes) : Option Int := floatKey 11 52 bytes

/-- `device_comparison` at an integer type. -/
def compareInt (op : Comparison) (item compare : Int) : Bool :=
  match op with
  | .eq => item = compare
  | .ne => item ≠ compare
  | .gt => compare < item
  | .ge => compare ≤ item
  | .lt => item < compare
  | .le => item ≤ compare

/-- `device_comparison` at a floating-point type. -/
def compareFloat (op : Comparison) (item compare : Option Int) : Bool :=
  match item, compare with
  | some item, some compare => compareInt op item compare
  | _, _ => op = .ne

/-- The comparison in SQL, where all NaNs are one value above the numbers. -/
def sqlFloat (op : Comparison) (item compare : Option Int) : Bool :=
  match item, compare with
  | some item, some compare => compareInt op item compare
  | none, some _ => op = .ne ∨ op = .gt ∨ op = .ge
  | some _, none => op = .ne ∨ op = .lt ∨ op = .le
  | none, none => op = .eq ∨ op = .ge ∨ op = .le

/-- A comparison of two values of a type. -/
def sqlCompare (type : GPUColumnType) (op : Comparison) (item compare : Bytes) : Bool :=
  match type with
  | .float32 => sqlFloat op (float32Key item) (float32Key compare)
  | .float64 => sqlFloat op (float64Key item) (float64Key compare)
  | .varchar => op.holds item compare
  | _ => compareInt op (signedValue item) (signedValue compare)

def SimpleFilter.satisfied (filter : SimpleFilter) (column : Column) (row : Nat) : Bool :=
  match filter with
  | .constantComparison op (some constant) =>
      column.valid row && sqlCompare column.type op (column.cell row) constant
  | .constantComparison _ none => false
  | .isNotNull => column.valid row
  | .optionalFilter => true
  | .other keeps => keeps row

def TableFilter.satisfied (filter : TableFilter) (column : Column) (row : Nat) : Bool :=
  match filter with
  | .simple filter => filter.satisfied column row
  | .conjunctionAnd children => children.all fun child => child.satisfied column row

end Meaning

/-! ## Collecting the comparisons -/

section Collect

/-- A comparison with its column. -/
structure Expr where
  column : Column
  op : Comparison
  constant : Option Bytes

def outOfRange : String := "Attempted to access index within vector"

def Scan.filterColumn (scan : Scan) (columnIndex : Nat) : Option Column :=
  (scan.columnIds[columnIndex]?).bind fun id => scan.columns[id]?

/-- A child of a conjunction adds a comparison, nothing, or is refused. -/
def collectChild (column : Column) (filter : SimpleFilter) : Except String (List Expr) :=
  match filter with
  | .constantComparison op constant => .ok [⟨column, op, constant⟩]
  | .isNotNull => .ok []
  | .optionalFilter => .ok []
  | .other _ => .error "Filter type not supported"

def collectFilter (column : Column) (filter : TableFilter) : Except String (List Expr) :=
  match filter with
  | .simple .optionalFilter => .ok []
  | .simple (.constantComparison op constant) => .ok [⟨column, op, constant⟩]
  | .simple _ => .error "Filter aside from constant comparison not supported"
  | .conjunctionAnd children => do
      let collected ← children.mapM (collectChild column)
      .ok collected.flatten

/-- The comparisons in the order of the filters; a filter on a column beyond the names of the
table is passed over. -/
def Scan.collect (scan : Scan) : Except String (List Expr) := do
  let collected ← scan.filters.mapM fun filter =>
    match scan.filterColumn filter.1 with
    | none => .error outOfRange
    | some column =>
        if filter.1 < scan.names then collectFilter column filter.2 else .ok []
  .ok collected.flatten

end Collect

/-! ## Packing the constants -/

section Pack

inductive ScanDataType where
  | INT16
  | INT32
  | INT64
  | FLOAT32
  | FLOAT64
  | DATE
  | VARCHAR
  | DECIMAL32
  | DECIMAL64
  | SQLNULL
  deriving DecidableEq

/-- What a comparison adds to the array of bytes and its type, in the first pass. A decimal of
another size falls out of the inner switch. -/
def firstPass (e : Expr) : Except String (Nat × Option ScanDataType) :=
  match e.constant with
  | none => .ok (4, some .SQLNULL)
  | some constant =>
      match e.column.type with
      | .int16 => .ok (2, some .INT16)
      | .int32 => .ok (4, some .INT32)
      | .int64 => .ok (8, some .INT64)
      | .float32 => .ok (4, some .FLOAT32)
      | .float64 => .ok (8, some .FLOAT64)
      | .date => .ok (4, some .DATE)
      | .varchar => .ok (constant.length, some .VARCHAR)
      | .decimal width scale =>
          if getColumnTypeSize (.decimal width scale) = 4 then .ok (4, some .DECIMAL32)
          else if getColumnTypeSize (.decimal width scale) = 8 then .ok (8, some .DECIMAL64)
          else .ok (0, none)
      | _ => .error "Unsupported sirius column type"

/-- The bytes that the second pass copies, if it does. -/
def secondPass (e : Expr) : Option Bytes :=
  match e.constant with
  | none => some (List.replicate 4 255)
  | some constant =>
      match e.column.type with
      | .decimal width scale =>
          if getColumnTypeSize (.decimal width scale) = 4 then some (constant.take 4)
          else if getColumnTypeSize (.decimal width scale) = 8 then some (constant.take 8)
          else none
      | .varchar => some constant
      | type => some (constant.take (getColumnTypeSize type))

/-- The arrays the kernel is given. -/
structure Packed where
  totalBytes : Nat
  dataType : List (Option ScanDataType)
  constantCompare : Bytes
  constantOffset : List (Option Nat)

/-- The loop of the second pass; the constant goes where the last one ended. -/
def packConstants : List Expr → Bytes → List (Option Nat) → Bytes × List (Option Nat)
  | [], bytes, offsets => (bytes, offsets ++ [some bytes.length])
  | e :: rest, bytes, offsets =>
      match secondPass e with
      | some constant => packConstants rest (bytes ++ constant) (offsets ++ [some bytes.length])
      | none => packConstants rest bytes (offsets ++ [none])

def pack (exprs : List Expr) : Except String Packed := do
  let first ← exprs.mapM firstPass
  let packed := packConstants exprs [] []
  .ok {
    totalBytes := (first.map Prod.fst).sum
    dataType := first.map Prod.snd
    constantCompare := packed.1
    constantOffset := packed.2 }

end Pack

/-! ## The kernel -/

section Kernel

variable (signed : Bool) (garbage : Nat → Nat → Bool)

/-- The bytes that the kernel copies for a type. -/
def constantSize : ScanDataType → Nat
  | .INT16 => 2
  | .INT32 => 4
  | .DATE => 4
  | .DECIMAL32 => 4
  | .INT64 => 8
  | .DECIMAL64 => 8
  | .FLOAT32 => 4
  | .FLOAT64 => 8
  | .VARCHAR => 0
  | .SQLNULL => 4

def slot {α : Type} (table : List (Option α)) (i : Nat) : Option α := (table[i]?).join

/-- The constant of a comparison as the kernel reads it back. -/
def readConstant (packed : Packed) (i : Nat) (type : ScanDataType) : Option Bytes := do
  let start ← slot packed.constantOffset i
  match type with
  | .VARCHAR =>
      let stop ← slot packed.constantOffset (i + 1)
      some (slice packed.constantCompare start stop)
  | _ => some (slice packed.constantCompare start (start + constantSize type))

def deviceComparison (type : ScanDataType) (op : Comparison) (item constant : Bytes) : Bool :=
  match type with
  | .FLOAT32 => compareFloat op (float32Key item) (float32Key constant)
  | .FLOAT64 => compareFloat op (float64Key item) (float64Key constant)
  | .VARCHAR => (deviceComparisonString signed item constant op.compareType).getD false
  | .SQLNULL => false
  | _ => compareInt op (signedValue item) (signedValue constant)

/-- The verdict of the kernel on one comparison and one row. -/
def verdict (packed : Packed) (i : Nat) (e : Expr) (row : Nat) : Bool :=
  match slot packed.dataType i with
  -- a comparison with NULL selects nothing
  | some .SQLNULL => false
  | some type =>
      e.column.valid row &&
        match readConstant packed i type with
        | some constant => deviceComparison signed type e.op (e.column.cell row) constant
        | none => garbage i row
  | none => e.column.valid row && garbage i row

/-- The loop over the comparisons, left at the first that fails. -/
def selectRow (packed : Packed) (row : Nat) : Nat → List Expr → Bool
  | _, [] => true
  | i, e :: rest =>
      if verdict signed garbage packed i e row then selectRow packed row (i + 1) rest else false

end Kernel

/-- The scan up to the launch of the kernel. -/
def Scan.prepare (scan : Scan) : Except String (List Expr × Packed) := do
  let exprs ← scan.collect
  let packed ← pack exprs
  .ok (exprs, packed)

/-- What the hardware leaves open in a run of the kernel, with `threads` threads a block and
`items` items a thread. -/
structure Schedule where
  threads : Nat
  items : Nat
  order : List Nat
  writes : List (Nat × Nat)

/-- The order of the blocks and of their writes is one of the selection `flag`. -/
structure Schedule.Runs (schedule : Schedule) (rows : Nat) (flag : Nat → Bool) : Prop where
  positive : 0 < schedule.threads * schedule.items
  blocks : schedule.order.Perm (List.range (numTiles schedule.threads schedule.items rows))
  writes : schedule.writes.Perm (gridWrites schedule.threads
    (tileSelected schedule.threads schedule.items rows flag) schedule.order)

/-- The number of selected rows that the blocks have added up. -/
def Schedule.count (schedule : Schedule) (rows : Nat) (flag : Nat → Bool) : Nat :=
  (schedule.order.map fun block => exclusiveSum
    (tileSelected schedule.threads schedule.items rows flag block) schedule.threads).sum

/-- The row ids the scan goes on with; without comparisons it keeps all rows. -/
def Scan.rowIds (scan : Scan) (exprs : List Expr) (schedule : Schedule) (flag : Nat → Bool) :
    List (Option Nat) :=
  if exprs = [] then (List.range scan.rows).map some
  else if scan.rows = 0 then []
  else (List.range (schedule.count scan.rows flag)).map (perform schedule.writes)

/-! ## The packed constants -/

section ReadBack

variable {e : Expr} {exprs : List Expr} {packed : Packed}

/-- The type a column is scanned as. -/
def scanTypeOf : GPUColumnType → Option ScanDataType
  | .int16 => some .INT16
  | .int32 => some .INT32
  | .int64 => some .INT64
  | .float32 => some .FLOAT32
  | .float64 => some .FLOAT64
  | .date => some .DATE
  | .varchar => some .VARCHAR
  | .decimal width scale =>
      if getColumnTypeSize (.decimal width scale) = 4 then some .DECIMAL32
      else if getColumnTypeSize (.decimal width scale) = 8 then some .DECIMAL64
      else none
  | _ => none

def Expr.scanType (e : Expr) : Option ScanDataType :=
  match e.constant with
  | none => some .SQLNULL
  | some _ => scanTypeOf e.column.type

/-- The bytes that stand for the constant. -/
def Expr.constantBytes (e : Expr) : Bytes := e.constant.getD (List.replicate 4 255)

/-- The constant is a value of the column's type. -/
def Expr.Typed (e : Expr) : Prop :=
  ∀ constant, e.constant = some constant → e.column.type ≠ .varchar →
    constant.length = getColumnTypeSize e.column.type

/-- The filter is not on a decimal of two or sixteen bytes. -/
def Expr.Packable (e : Expr) : Prop :=
  e.constant ≠ none → ∀ width scale, e.column.type = .decimal width scale →
    getColumnTypeSize e.column.type = 4 ∨ getColumnTypeSize e.column.type = 8

/-- Every constant is read back with the type and the bytes it was packed with. -/
structure ReadBack (exprs : List Expr) (packed : Packed) : Prop where
  size : packed.constantCompare.length = packed.totalBytes
  constants : ∀ i e, exprs[i]? = some e → ∃ type, e.scanType = some type ∧
    slot packed.dataType i = some type ∧
    readConstant packed i type = some e.constantBytes

theorem firstPass_ok {size : Nat} {type : Option ScanDataType}
    (ran : firstPass e = .ok (size, type)) : type = e.scanType := by
  obtain ⟨column, op, constant⟩ := e
  cases constant with
  | none =>
      cases ran
      rfl
  | some constant =>
      cases shape : column.type <;> simp only [firstPass, shape, reduceCtorEq] at ran <;>
        simp only [Expr.scanType, scanTypeOf, shape]
      all_goals first
        | (cases ran; rfl)
        | (split at ran
           · cases ran
             rw [if_pos (by assumption)]
           · split at ran
             · cases ran
               rw [if_neg (by assumption), if_pos (by assumption)]
             · cases ran
               rw [if_neg (by assumption), if_neg (by assumption)])

theorem packable_iff {size : Nat} {type : Option ScanDataType}
    (ran : firstPass e = .ok (size, type)) : e.Packable ↔ ∃ type, e.scanType = some type := by
  obtain ⟨column, op, constant⟩ := e
  cases constant with
  | none => simp [Expr.Packable, Expr.scanType]
  | some constant =>
      cases shape : column.type with
      | decimal width scale =>
          simp only [Expr.Packable, Expr.scanType, scanTypeOf, shape, ne_eq, reduceCtorEq,
            not_false_iff, forall_true_left, GPUColumnType.decimal.injEq]
          constructor
          · intro sizes
            rcases sizes width scale ⟨rfl, rfl⟩ with four | eight
            · exact ⟨_, if_pos four⟩
            · rw [if_neg (by omega)]
              exact ⟨_, if_pos eight⟩
          · rintro ⟨type, found⟩ _ _ _
            by_contra other
            rw [not_or] at other
            rw [if_neg other.1, if_neg other.2] at found
            cases found
      | _ =>
          simp only [firstPass, shape, reduceCtorEq] at ran
          all_goals simp [Expr.Packable, Expr.scanType, scanTypeOf, shape]

/-- Both passes and the kernel agree on the bytes of a constant. -/
theorem passes_agree {size : Nat} {type : Option ScanDataType} {t : ScanDataType}
    (ran : firstPass e = .ok (size, type)) (typed : e.Typed) (found : e.scanType = some t) :
    secondPass e = some e.constantBytes ∧ size = e.constantBytes.length ∧
      (t ≠ .VARCHAR → constantSize t = e.constantBytes.length) := by
  obtain ⟨column, op, constant⟩ := e
  cases constant with
  | none =>
      cases ran
      cases found
      simp [secondPass, Expr.constantBytes, constantSize]
  | some constant =>
      have length := typed constant rfl
      cases shape : column.type with
      | varchar =>
          simp only [firstPass, shape, Except.ok.injEq, Prod.mk.injEq] at ran
          simp only [Expr.scanType, scanTypeOf, shape, Option.some_inj] at found
          simp [secondPass, shape, Expr.constantBytes, ran.1, ← found]
      | decimal width scale =>
          simp only [shape, ne_eq, reduceCtorEq, not_false_iff, forall_true_left] at length
          simp only [firstPass, shape] at ran
          simp only [Expr.scanType, scanTypeOf, shape] at found
          simp only [secondPass, shape, Expr.constantBytes, Option.getD_some]
          split at found
          · rename_i four
            rw [if_pos four] at ran
            cases ran
            cases found
            rw [if_pos four, List.take_of_length_le (by omega), length, four]
            exact ⟨rfl, rfl, fun _ => rfl⟩
          · rename_i notFour
            split at found
            · rename_i eight
              rw [if_neg notFour, if_pos eight] at ran
              cases ran
              cases found
              rw [if_neg notFour, if_pos eight, List.take_of_length_le (by omega), length, eight]
              exact ⟨rfl, rfl, fun _ => rfl⟩
            · cases found
      | _ =>
          simp only [firstPass, shape, reduceCtorEq, Except.ok.injEq, Prod.mk.injEq] at ran
          all_goals
            simp only [Expr.scanType, scanTypeOf, shape, Option.some_inj] at found
            simp only [shape, ne_eq, reduceCtorEq, not_false_iff, forall_true_left,
              getColumnTypeSize] at length
            simp [secondPass, shape, Expr.constantBytes, getColumnTypeSize, ← found, ← ran.1,
              constantSize, length]

theorem pack_ok (ran : pack exprs = .ok packed) :
    ∃ first, List.Forall₂ (fun e result => firstPass e = .ok result) exprs first ∧
      packed = ⟨(first.map Prod.fst).sum, first.map Prod.snd, (packConstants exprs [] []).1,
        (packConstants exprs [] []).2⟩ := by
  cases passed : exprs.mapM firstPass with
  | error message =>
      simp only [pack, passed, bind, Except.bind, reduceCtorEq] at ran
  | ok first =>
      simp only [pack, passed, bind, Except.bind, Except.ok.injEq] at ran
      exact ⟨first, mapM_ok_iff.mp passed, ran.symm⟩

theorem packConstants_eq (exprs : List Expr)
    (packable : ∀ e ∈ exprs, secondPass e = some e.constantBytes) (bytes : Bytes)
    (before : List (Option Nat)) :
    packConstants exprs bytes before =
      (bytes ++ (exprs.map Expr.constantBytes).flatten,
        before ++ (offsets bytes.length (exprs.map Expr.constantBytes)).map some) := by
  induction exprs generalizing bytes before with
  | nil => simp [packConstants, offsets]
  | cons e rest ih =>
      rw [packConstants, packable e List.mem_cons_self]
      simp only
      rw [ih fun other member => packable other (List.mem_cons_of_mem _ member)]
      simp [offsets]

theorem slot_offsets (pieces : List Bytes) {i : Nat} (h : i ≤ pieces.length) :
    slot ((offsets 0 pieces).map some) i = some (pieces.take i).flatten.length := by
  have inside : i < (offsets 0 pieces).length := by
    rw [offsets_length]
    omega
  have value := offsets_get 0 pieces h
  rw [Nat.zero_add, List.getD_eq_getElem?_getD, List.getElem?_eq_getElem inside,
    Option.getD_some] at value
  rw [slot, List.getElem?_map, List.getElem?_eq_getElem inside, value]
  rfl

theorem forall₂_get {first : List (Nat × Option ScanDataType)}
    (passed : List.Forall₂ (fun e result => firstPass e = .ok result) exprs first) {i : Nat}
    (here : exprs[i]? = some e) : ∃ result, first[i]? = some result ∧ firstPass e = .ok result := by
  induction passed generalizing i with
  | nil => simp at here
  | cons head _ ih =>
      cases i with
      | zero =>
          simp only [List.getElem?_cons_zero, Option.some_inj] at here
          exact ⟨_, rfl, here ▸ head⟩
      | succ i => exact ih here

/-- The array has room for exactly the bytes that are packed. -/
theorem sum_sizes {first : List (Nat × Option ScanDataType)}
    (passed : List.Forall₂ (fun e result => firstPass e = .ok result) exprs first)
    (typed : ∀ e ∈ exprs, e.Typed) (packable : ∀ e ∈ exprs, e.Packable) :
    ((exprs.map Expr.constantBytes).flatten).length = (first.map Prod.fst).sum := by
  induction passed with
  | nil => rfl
  | cons head _ ih =>
      obtain ⟨t, found⟩ := (packable_iff head).mp (packable _ List.mem_cons_self)
      have size := (passes_agree head (typed _ List.mem_cons_self) found).2.1
      have later := ih (fun other member => typed other (List.mem_cons_of_mem _ member))
        (fun other member => packable other (List.mem_cons_of_mem _ member))
      simp only [List.map_cons, List.flatten_cons, List.length_append, List.sum_cons, later, size]

theorem readBack_iff (ran : pack exprs = .ok packed) (typed : ∀ e ∈ exprs, e.Typed) :
    ReadBack exprs packed ↔ ∀ e ∈ exprs, e.Packable := by
  obtain ⟨first, passed, rfl⟩ := pack_ok ran
  constructor
  · rintro ⟨_, constants⟩ e member
    obtain ⟨i, inside, rfl⟩ := List.getElem_of_mem member
    obtain ⟨type, found, _⟩ := constants i _ (List.getElem?_eq_getElem inside)
    obtain ⟨result, _, head⟩ := forall₂_get passed (List.getElem?_eq_getElem inside)
    exact (packable_iff head).mpr ⟨type, found⟩
  · intro packable
    have second : ∀ e ∈ exprs, secondPass e = some e.constantBytes := by
      intro e member
      obtain ⟨i, inside, rfl⟩ := List.getElem_of_mem member
      obtain ⟨result, _, head⟩ := forall₂_get passed (List.getElem?_eq_getElem inside)
      obtain ⟨t, found⟩ := (packable_iff head).mp (packable _ member)
      exact (passes_agree head (typed _ member) found).1
    have whole := packConstants_eq exprs second [] []
    rw [List.nil_append, List.nil_append, List.length_nil] at whole
    constructor
    · rw [whole]
      exact sum_sizes passed typed packable
    · intro i e here
      have member := List.mem_of_getElem? here
      have inside : i < exprs.length := (List.getElem?_eq_some_iff.mp here).1
      have insidePieces : i < (exprs.map Expr.constantBytes).length := by
        rwa [List.length_map]
      obtain ⟨result, atFirst, head⟩ := forall₂_get passed here
      obtain ⟨t, found⟩ := (packable_iff head).mp (packable _ member)
      have agree := passes_agree head (typed _ member) found
      have piece : (exprs.map Expr.constantBytes)[i] = e.constantBytes := by
        have := (List.getElem?_eq_some_iff.mp here).2
        simp [this]
      have cut := slice_flatten (exprs.map Expr.constantBytes) insidePieces
      have next : ((exprs.map Expr.constantBytes).take (i + 1)).flatten.length =
          ((exprs.map Expr.constantBytes).take i).flatten.length + e.constantBytes.length := by
        rw [List.take_succ_eq_append_getElem insidePieces, List.flatten_append,
          List.length_append, piece]
        simp
      refine ⟨t, found, ?_, ?_⟩
      · rw [slot, List.getElem?_map, atFirst]
        exact (firstPass_ok head).trans found
      · rw [whole]
        simp only [readConstant, slot_offsets _ (Nat.le_of_lt insidePieces), bind,
          Option.bind_some]
        cases t with
        | VARCHAR =>
            rw [slot_offsets _ insidePieces, Option.bind_some, cut, piece]
        | _ =>
            simp only [agree.2.2 (by simp), ← next, cut, piece]

end ReadBack

/-! ## The verdict on a row -/

section Verdict

variable {signed : Bool} {garbage : Nat → Nat → Bool} {packed : Packed} {e : Expr}
  {exprs : List Expr} {row : Nat}

/-- Where the comparison of floating-point numbers departs from that of SQL. -/
def nanMisjudged (op : Comparison) (item compare : Option Int) : Bool :=
  match item, compare with
  | some _, some _ => false
  | none, some _ => op = .gt ∨ op = .ge
  | some _, none => op = .lt ∨ op = .le
  | none, none => op ≠ .gt ∧ op ≠ .lt

/-- The comparisons whose result is the opposite of the one in SQL: of a NaN, and of strings
that the kernel orders otherwise. -/
def misjudges (signed : Bool) (type : GPUColumnType) (op : Comparison) (item constant : Bytes) :
    Prop :=
  match type with
  | .float32 => nanMisjudged op (float32Key item) (float32Key constant) = true
  | .float64 => nanMisjudged op (float64Key item) (float64Key constant) = true
  | .varchar => ¬ Faithful .tableScan signed item constant op
  | _ => False

def Expr.misjudged (signed : Bool) (e : Expr) (row : Nat) : Prop :=
  ∃ constant, e.constant = some constant ∧
    misjudges signed e.column.type e.op (e.column.cell row) constant

def Expr.satisfied (e : Expr) (row : Nat) : Bool :=
  (SimpleFilter.constantComparison e.op e.constant).satisfied e.column row

/-- Neither the value nor the constant is NULL. -/
def Expr.present (e : Expr) (row : Nat) : Prop := e.constant ≠ none ∧ e.column.valid row = true

theorem compareFloat_iff (op : Comparison) (item compare : Option Int) :
    compareFloat op item compare = sqlFloat op item compare ↔
      ¬ nanMisjudged op item compare = true := by
  cases item <;> cases compare <;> cases op <;>
    simp [compareFloat, sqlFloat, nanMisjudged]

theorem deviceComparison_iff {type : GPUColumnType} {t : ScanDataType}
    (found : scanTypeOf type = some t) (op : Comparison) (item constant : Bytes) :
    deviceComparison signed t op item constant = sqlCompare type op item constant ↔
      ¬ misjudges signed type op item constant := by
  have string : (deviceComparisonString signed item constant op.compareType).getD false =
      op.holds item constant ↔ Faithful .tableScan signed item constant op := by
    have judged := compare_eq_iff .tableScan signed op item constant
    rw [← judged, Kernel.compare]
    cases op <;> simp [Comparison.compareType, deviceComparisonString]
  cases type with
  | varchar =>
      cases found
      rw [deviceComparison, sqlCompare, misjudges, not_not]
      exact string
  | float32 =>
      cases found
      exact compareFloat_iff op _ _
  | float64 =>
      cases found
      exact compareFloat_iff op _ _
  | decimal width scale =>
      rw [scanTypeOf] at found
      split at found
      · cases found
        simp [deviceComparison, sqlCompare, misjudges]
      · split at found
        · cases found
          simp [deviceComparison, sqlCompare, misjudges]
        · cases found
  | _ =>
      cases found
      all_goals simp [deviceComparison, sqlCompare, misjudges]

/-- A comparison whose constant is read back selects the rows it is right about. -/
theorem verdict_iff {i : Nat} {type : ScanDataType} (found : e.scanType = some type)
    (written : slot packed.dataType i = some type)
    (read : readConstant packed i type = some e.constantBytes) :
    verdict signed garbage packed i e row = true ↔
      e.present row ∧ (e.satisfied row = true ↔ ¬ e.misjudged signed row) := by
  cases constant : e.constant with
  | none =>
      rw [Expr.scanType, constant] at found
      cases found
      simp [verdict, written, Expr.present, constant]
  | some bytes =>
      have kind : scanTypeOf e.column.type = some type := by
        simpa [Expr.scanType, constant] using found
      have notNull : type ≠ .SQLNULL := by
        rintro rfl
        cases shape : e.column.type <;> simp [scanTypeOf, shape] at kind
        split at kind
        · cases kind
        · split at kind <;> cases kind
      have judged : _ ↔ ¬ misjudges signed e.column.type e.op (e.column.cell row) bytes :=
        deviceComparison_iff kind e.op (e.column.cell row) bytes
      have value : verdict signed garbage packed i e row =
          (e.column.valid row && deviceComparison signed type e.op (e.column.cell row) bytes) := by
        rw [Expr.constantBytes, constant, Option.getD_some] at read
        rw [verdict, written]
        cases type <;> simp_all
      have misjudged : e.misjudged signed row ↔
          misjudges signed e.column.type e.op (e.column.cell row) bytes := by
        simp [Expr.misjudged, constant]
      rw [value, misjudged, ← judged]
      simp only [Expr.present, Expr.satisfied, SimpleFilter.satisfied, constant]
      cases e.column.valid row with
      | false => simp
      | true =>
          simp only [Bool.true_and, ne_eq, reduceCtorEq, not_false_iff, true_and]
          cases deviceComparison signed type e.op (e.column.cell row) bytes <;>
            cases sqlCompare e.column.type e.op (e.column.cell row) bytes <;> simp

theorem selectRow_iff (packed : Packed) (row : Nat) (exprs : List Expr) (start : Nat) :
    selectRow signed garbage packed row start exprs = true ↔
      ∀ i e, exprs[i]? = some e → verdict signed garbage packed (start + i) e row = true := by
  induction exprs generalizing start with
  | nil => simp [selectRow]
  | cons e rest ih =>
      rw [selectRow]
      constructor
      · intro chosen i other here
        split at chosen
        · rename_i first
          cases i with
          | zero =>
              obtain rfl : e = other := by simpa using here
              exact first
          | succ i =>
              have later := (ih (start + 1)).mp chosen i other here
              rwa [show start + (i + 1) = start + 1 + i by omega]
        · cases chosen
      · intro all
        have first : verdict signed garbage packed start e row = true := all 0 e rfl
        rw [if_pos first, ih (start + 1)]
        intro i other here
        have later := all (i + 1) other here
        rwa [show start + 1 + i = start + (i + 1) by omega]

theorem selectRow_readBack (read : ReadBack exprs packed) :
    selectRow signed garbage packed row 0 exprs = true ↔
      ∀ e ∈ exprs, e.present row ∧ (e.satisfied row = true ↔ ¬ e.misjudged signed row) := by
  rw [selectRow_iff]
  constructor
  · intro all e member
    obtain ⟨i, inside, rfl⟩ := List.getElem_of_mem member
    have here := List.getElem?_eq_getElem inside
    obtain ⟨type, found, written, constant⟩ := read.constants i _ here
    exact (verdict_iff found written constant).mp (by simpa using all i _ here)
  · intro all i e here
    obtain ⟨type, found, written, constant⟩ := read.constants i e here
    rw [Nat.zero_add]
    exact (verdict_iff found written constant).mpr (all e (List.mem_of_getElem? here))

end Verdict

/-! ## The rows of the scan -/

section Rows

variable {signed : Bool} {scan : Scan} {exprs : List Expr} {packed : Packed}

/-- The row satisfies all filters. -/
def Scan.qualifies (scan : Scan) (row : Nat) : Bool :=
  scan.filters.all fun filter =>
    match scan.filterColumn filter.1 with
    | some column => filter.2.satisfied column row
    | none => false

/-- The row ids are those of the qualifying rows, each once, however the hardware schedules the
kernel and whatever it reads from a slot that was never written. -/
def Scan.Exact (scan : Scan) (signed : Bool) (exprs : List Expr) (packed : Packed) : Prop :=
  ∀ (garbage : Nat → Nat → Bool) (schedule : Schedule),
    schedule.Runs scan.rows (fun row => selectRow signed garbage packed row 0 exprs) →
      ∃ rows : List Nat,
        scan.rowIds exprs schedule (fun row => selectRow signed garbage packed row 0 exprs) =
            rows.map some ∧
          rows.Perm ((List.range scan.rows).filter scan.qualifies)

/-- A row that satisfies all filters has no misjudged comparison, and a row on which every
comparison either holds or, misjudged, fails satisfies all filters. -/
structure RowRight (scan : Scan) (signed : Bool) (exprs : List Expr) (row : Nat) : Prop where
  kept : scan.qualifies row = true → ∀ e ∈ exprs, ¬ e.misjudged signed row
  dropped : (∀ e ∈ exprs, e.present row ∧ (e.satisfied row = true ↔ ¬ e.misjudged signed row)) →
    scan.qualifies row = true

theorem mapM_flatten {α : Type} {f : α → Except String (List Expr)} {filters : List α}
    {collected : List (List Expr)} (ran : filters.mapM f = .ok collected) :
    ∀ e ∈ collected.flatten, ∃ filter ∈ filters, ∃ es, f filter = .ok es ∧ e ∈ es := by
  intro e member
  obtain ⟨es, inside, here⟩ := List.mem_flatten.mp member
  obtain ⟨filter, asked, made⟩ := exists_of_forall₂ (mapM_ok_iff.mp ran).flip inside
  exact ⟨filter, asked, es, made, here⟩

/-- A comparison is collected from a filter that asks for it. -/
theorem collectFilter_satisfied {column : Column} {filter : TableFilter} {es : List Expr}
    (ran : collectFilter column filter = .ok es) {row : Nat}
    (satisfied : filter.satisfied column row = true) : ∀ e ∈ es, e.satisfied row = true := by
  cases filter with
  | simple filter =>
      cases filter <;> simp only [collectFilter, reduceCtorEq, Except.ok.injEq] at ran
      · rw [← ran]
        intro e member
        rw [List.mem_singleton.mp member]
        exact satisfied
      · rw [← ran]
        simp
  | conjunctionAnd children =>
      cases gathered : children.mapM (collectChild column) with
      | error message =>
          simp only [collectFilter, gathered, bind, Except.bind, reduceCtorEq] at ran
      | ok collected =>
          simp only [collectFilter, gathered, bind, Except.bind, Except.ok.injEq] at ran
          rw [← ran]
          intro e member
          obtain ⟨child, inside, es, here, isMember⟩ := mapM_flatten gathered e member
          have kept : child.satisfied column row = true := by
            rw [TableFilter.satisfied, List.all_eq_true] at satisfied
            exact satisfied child inside
          cases child <;> simp only [collectChild, reduceCtorEq, Except.ok.injEq] at here
          · rw [← here, List.mem_singleton] at isMember
            rw [isMember]
            exact kept
          · rw [← here] at isMember
            cases isMember
          · rw [← here] at isMember
            cases isMember

theorem collect_satisfied (ran : scan.collect = .ok exprs) {row : Nat}
    (qualifying : scan.qualifies row = true) : ∀ e ∈ exprs, e.satisfied row = true := by
  rw [Scan.qualifies, List.all_eq_true] at qualifying
  rw [Scan.collect] at ran
  cases gathered : scan.filters.mapM fun filter =>
      match scan.filterColumn filter.1 with
      | none => Except.error outOfRange
      | some column =>
          if filter.1 < scan.names then collectFilter column filter.2 else .ok [] with
  | error message =>
      rw [gathered] at ran
      cases ran
  | ok collected =>
      rw [gathered] at ran
      cases ran
      intro e member
      obtain ⟨filter, inside, es, here, isMember⟩ := mapM_flatten gathered e member
      have kept := qualifying filter inside
      cases column : scan.filterColumn filter.1 with
      | none => simp [column] at here
      | some column_ =>
          simp only [column] at here kept
          split at here
          · exact collectFilter_satisfied here kept e isMember
          · cases here
            cases isMember

theorem present_of_satisfied {e : Expr} {row : Nat} (satisfied : e.satisfied row = true) :
    e.present row := by
  obtain ⟨column, op, constant⟩ := e
  cases constant with
  | none => simp [Expr.satisfied, SimpleFilter.satisfied] at satisfied
  | some bytes =>
      simp only [Expr.satisfied, SimpleFilter.satisfied, Bool.and_eq_true] at satisfied
      exact ⟨by simp, satisfied.1⟩

/-- A row is selected exactly if it qualifies. -/
theorem rowRight_iff (ran : scan.collect = .ok exprs) (read : ReadBack exprs packed) (row : Nat)
    (garbage : Nat → Nat → Bool) :
    selectRow signed garbage packed row 0 exprs = scan.qualifies row ↔
      RowRight scan signed exprs row := by
  rw [Bool.eq_iff_iff, selectRow_readBack read]
  constructor
  · intro same
    constructor
    · intro qualifying e member
      exact (same.mpr qualifying e member).2.mp (collect_satisfied ran qualifying e member)
    · exact same.mp
  · rintro ⟨kept, dropped⟩
    constructor
    · exact dropped
    · intro qualifying e member
      have satisfied := collect_satisfied ran qualifying e member
      refine ⟨present_of_satisfied satisfied, ?_⟩
      simp only [satisfied, true_iff]
      exact kept qualifying e member

/-- A schedule in which the blocks and their writes follow one another. -/
theorem exists_schedule (rows : Nat) (flag : Nat → Bool) :
    ∃ schedule : Schedule, schedule.Runs rows flag :=
  ⟨⟨1, 1, List.range (numTiles 1 1 rows),
    gridWrites 1 (tileSelected 1 1 rows flag) (List.range (numTiles 1 1 rows))⟩,
    Nat.zero_lt_one, List.Perm.refl _, List.Perm.refl _⟩

/-- The row ids in memory are the selected rows, in some order. -/
theorem rowIds_perm {flag : Nat → Bool} {schedule : Schedule}
    (runs : schedule.Runs scan.rows flag) (all : exprs = [] → ∀ row, flag row = true) :
    ∃ rows : List Nat, scan.rowIds exprs schedule flag = rows.map some ∧
      rows.Perm ((List.range scan.rows).filter flag) := by
  rw [Scan.rowIds]
  by_cases none : exprs = []
  · refine ⟨List.range scan.rows, if_pos none, ?_⟩
    rw [List.filter_eq_self.mpr fun row _ => all none row]
  · rw [if_neg none]
    by_cases empty : scan.rows = 0
    · exact ⟨[], if_pos empty, by rw [empty]; exact List.Perm.refl _⟩
    · rw [if_neg empty]
      have places := perform_gridWrites runs.writes
      rw [← count_eq] at places
      exact ⟨_, places, gathered_tiles runs.positive flag runs.blocks⟩

theorem filter_range_perm_iff {n : Nat} {p q : Nat → Bool} :
    ((List.range n).filter p).Perm ((List.range n).filter q) ↔ ∀ row < n, p row = q row := by
  rw [List.perm_ext_iff_of_nodup (List.nodup_range.filter p) (List.nodup_range.filter q)]
  simp only [List.mem_filter, List.mem_range, and_congr_right_iff, ← Bool.eq_iff_iff]

theorem exact_iff (ran : scan.collect = .ok exprs) (read : ReadBack exprs packed) :
    scan.Exact signed exprs packed ↔ ∀ row < scan.rows, RowRight scan signed exprs row := by
  have all (garbage : Nat → Nat → Bool) (none : exprs = []) (row : Nat) :
      selectRow signed garbage packed row 0 exprs = true := by
    rw [none]
    rfl
  constructor
  · intro exact row inside
    obtain ⟨schedule, runs⟩ := exists_schedule scan.rows
      fun row => selectRow signed (fun _ _ => false) packed row 0 exprs
    obtain ⟨rows, here, right⟩ := exact (fun _ _ => false) schedule runs
    obtain ⟨others, there, selected⟩ := rowIds_perm runs (all _)
    obtain rfl : rows = others := List.map_injective_iff.mpr (Option.some_injective _)
      (here.symm.trans there)
    exact (rowRight_iff ran read row _).mp
      (filter_range_perm_iff.mp (selected.symm.trans right) row inside)
  · intro right garbage schedule runs
    obtain ⟨rows, here, selected⟩ := rowIds_perm runs (all garbage)
    refine ⟨rows, here, selected.trans (filter_range_perm_iff.mpr fun row inside => ?_)⟩
    exact (rowRight_iff ran read row garbage).mpr (right row inside)

theorem prepare_ok (ran : scan.prepare = .ok (exprs, packed)) :
    scan.collect = .ok exprs ∧ pack exprs = .ok packed := by
  cases collected : scan.collect with
  | error message => simp only [Scan.prepare, collected, bind, Except.bind, reduceCtorEq] at ran
  | ok es =>
      cases filled : pack es with
      | error message =>
          simp only [Scan.prepare, collected, filled, bind, Except.bind, reduceCtorEq] at ran
      | ok p =>
          simp only [Scan.prepare, collected, filled, bind, Except.bind, Except.ok.injEq,
            Prod.mk.injEq] at ran
          obtain ⟨rfl, rfl⟩ := ran
          exact ⟨rfl, filled⟩

/-- A scan that raises nothing returns the qualifying rows and reads its constants back as they
were packed exactly if no filter is on a decimal of two or sixteen bytes and no comparison is
misjudged to the effect of keeping or dropping a row. -/
theorem scan_exact_iff (signed : Bool) (scan : Scan) (exprs : List Expr) (packed : Packed)
    (ran : scan.prepare = .ok (exprs, packed)) (typed : ∀ e ∈ exprs, e.Typed) :
    (scan.Exact signed exprs packed ∧ ReadBack exprs packed) ↔
      (∀ e ∈ exprs, e.Packable) ∧ ∀ row < scan.rows, RowRight scan signed exprs row := by
  obtain ⟨collected, filled⟩ := prepare_ok ran
  rw [← readBack_iff filled typed]
  constructor
  · rintro ⟨exact, read⟩
    exact ⟨read, (exact_iff collected read).mp exact⟩
  · rintro ⟨read, right⟩
    exact ⟨(exact_iff collected read).mpr right, read⟩

/-- A scan of one column that keeps the rows above a constant. -/
def above (type : GPUColumnType) (constant : Bytes) : Scan where
  rows := 2
  columns := [⟨type, fun row => row = 0, fun _ => constant⟩]
  columnIds := [0]
  names := 1
  filters := [(0, .conjunctionAnd [.isNotNull, .constantComparison .ge (some constant)])]

def aboveExpr (type : GPUColumnType) (constant : Bytes) : Expr :=
  ⟨⟨type, fun row => row = 0, fun _ => constant⟩, .ge, some constant⟩

theorem above_integer_iff :
    ((above .int32 [5, 0, 0, 0]).Exact true [aboveExpr .int32 [5, 0, 0, 0]]
        ⟨4, [some .INT32], [5, 0, 0, 0], [some 0, some 4]⟩ ∧
      ReadBack [aboveExpr .int32 [5, 0, 0, 0]]
        ⟨4, [some .INT32], [5, 0, 0, 0], [some 0, some 4]⟩) ↔
      (∀ e ∈ [aboveExpr .int32 [5, 0, 0, 0]], e.Packable) ∧
        ∀ row < (above .int32 [5, 0, 0, 0]).rows,
          RowRight (above .int32 [5, 0, 0, 0]) true [aboveExpr .int32 [5, 0, 0, 0]] row :=
  scan_exact_iff true (above .int32 [5, 0, 0, 0]) _ _ rfl (by
    intro e member constant same _
    rw [List.mem_singleton.mp member] at same ⊢
    cases same
    rfl)

/-- The constant of a decimal of two bytes is never packed, and nothing is raised. -/
theorem narrow_decimal_unpacked : ¬ ∀ (signed : Bool) (scan : Scan) (exprs : List Expr)
    (packed : Packed), scan.prepare = .ok (exprs, packed) → (∀ e ∈ exprs, e.Typed) →
      scan.Exact signed exprs packed ∧ ReadBack exprs packed := by
  intro right
  have typed : ∀ e ∈ [aboveExpr (.decimal 4 1) [10, 0]], e.Typed := by
    intro e member constant same _
    rw [List.mem_singleton.mp member] at same ⊢
    cases same
    rfl
  obtain ⟨_, read⟩ := right true (above (.decimal 4 1) [10, 0]) [aboveExpr (.decimal 4 1) [10, 0]]
    ⟨0, [none], [], [none, some 0]⟩ rfl typed
  obtain ⟨type, found, _⟩ := read.constants 0 _ rfl
  cases found

end Rows

end TableFilters
