import Mathlib
import SiriusGpu.FallibleMaps
import SiriusGpu.GpuExpressions

/-!
# Inputs of ungrouped aggregates

`GPUPhysicalUngroupedAggregate::Sink` up to the aggregation. The plan projects the arguments of
each aggregate and then its filter; the sink reads the argument of a plain aggregate at a
running index that leaves the filters out, and writes the argument of a DISTINCT one to the
place of its index. No filter is applied.
-/

namespace AggregateInputs

open GpuMemory (Exception Bytes)
open GpuColumns (GPUColumnType)
open GpuExpressions (isTrue outOfBounds int32Max)
open ColumnValues FallibleMaps

section Plan

/-- An aggregate of a plan, with the number of its arguments; `count` has one at most. -/
structure Aggregate where
  name : String
  arguments : Nat
  filtered : Bool
  distinct : Bool
  single : name = "count" → arguments ≤ 1

/-- An aggregate whose arguments and filter are references to the projection. -/
structure BoundAggregate where
  name : String
  children : List Nat
  filter : Option Nat
  distinct : Bool
  deriving DecidableEq

/-- `ExtractAggregateExpressions`; `expressions` counts those projected so far. -/
def extractAggregateExpressions (expressions : Nat) : List Aggregate → List BoundAggregate
  | [] => []
  | aggr :: rest =>
    let children := (List.range aggr.arguments).map (expressions + ·)
    let filter := expressions + aggr.arguments
    if aggr.filtered then
      ⟨aggr.name, children, some filter, aggr.distinct⟩ ::
        extractAggregateExpressions (filter + 1) rest
    else ⟨aggr.name, children, none, aggr.distinct⟩ :: extractAggregateExpressions filter rest

end Plan

section Model

variable (columns : List Column)

abbrev Slots := List (Option Column)

def readColumn (index : Nat) : Except Exception Column :=
  match columns[index]? with
  | some c => materialize c
  | none => .error outOfBounds

/-- The references `MaterializeDistinctInput` goes through. -/
def distinctReferences (aggregates : List BoundAggregate) : List Nat :=
  (aggregates.filter (·.distinct)).flatMap (·.children)

/-- `MaterializeDistinctInput`: a column is written at its own index. -/
def materializeDistinctInput : List Nat → Slots → Except Exception Slots
  | [], slots => .ok slots
  | index :: rest, slots => do
    let column ← readColumn columns index
    if index < slots.length then materializeDistinctInput rest (slots.set index (some column))
    else .error outOfBounds

def multipleChildren : Exception :=
  .notImplemented "Aggregates with multiple children not supported yet"

/-- The column of an aggregate that is not DISTINCT. -/
def payloadSlot (payloadIdx : Nat) (aggregate : BoundAggregate) (slot : Option Column) :
    Except Exception (Option Column) :=
  if aggregate.distinct then .ok slot
  else match aggregate.children with
    | [] => .ok slot
    | [_] => do
      let column ← readColumn columns payloadIdx
      .ok (some column)
    | _ => .error multipleChildren

/-- The slots of the aggregates, with a running index. -/
def readPayload : Nat → List BoundAggregate → Slots → Except Exception Slots
  | payloadIdx, aggregate :: rest, slot :: slots => do
    let slot ← payloadSlot columns payloadIdx aggregate slot
    let slots ← readPayload (payloadIdx + aggregate.children.length) rest slots
    .ok (slot :: slots)
  | _, _, slots => .ok slots

/-- The size of `*` is that of the first column; one without data counts its row ids. -/
def columnSize : Nat :=
  match columns with
  | [] => 0
  | c :: _ =>
    match c.rowIds with
    | some ids => ids.length
    | none => if c.entries = none then 0 else c.columnLength

def starColumn : Column := { emptyColumn .int64 with
  columnLength := columnSize columns
  long := nofun
  inside := nofun }

def passStar (aggregate : BoundAggregate) (slot : Option Column) : Option Column :=
  if aggregate.children = [] then some (starColumn columns) else slot

/-- The columns the sink collects for the aggregates. -/
def collect (aggregates : List BoundAggregate) : Except Exception Slots := do
  let slots := aggregates.map fun _ => none
  let slots ← materializeDistinctInput columns (distinctReferences aggregates) slots
  let slots ← readPayload columns 0 aggregates slots
  .ok (List.zipWith (passStar columns) aggregates slots)

def nullPointer : Exception := .internal "Attempted to dereference shared_ptr that is NULL!"

inductive AggregationType
  | sum | min | max | count | countStar | average | first | countDistinct
  deriving DecidableEq

/-- The branches of `HandleAggregateExpressionCuDF` for an aggregate that is not DISTINCT. -/
def plainType (name : String) (c : Column) : Except Exception AggregationType :=
  if name = "count" ∧ c.entries = none ∧ c.columnLength = 0 then .ok .count
  else if name = "sum" ∧ c.entries = none ∧ c.columnLength = 0 then .ok .sum
  else if name = "sum" ∧ c.entries ≠ none then .ok .sum
  else if name = "sum_no_overflow" ∧ c.entries = none ∧ c.columnLength = 0 then .ok .sum
  else if name = "sum_no_overflow" ∧ c.entries ≠ none then .ok .sum
  else if name = "avg" ∧ c.entries ≠ none then .ok .average
  else if name = "max" ∧ c.entries ≠ none then .ok .max
  else if name = "min" ∧ c.entries ≠ none then .ok .min
  else if name = "count_star" ∧ c.entries = none then .ok .countStar
  else if name = "count" ∧ c.entries ≠ none then .ok .count
  else if name = "first" then .ok .first
  else .error (.notImplemented "Aggregate function (not distinct) not supported")

def aggregationType (aggregate : BoundAggregate) (slot : Option Column) :
    Except Exception AggregationType :=
  if aggregate.distinct then
    if aggregate.name = "count" then .ok .countDistinct
    else .error (.notImplemented "Aggregate function (distinct) not supported")
  else match slot with
    | none => .error nullPointer
    | some c => plainType aggregate.name c

/-- What the aggregation is called with. If the first column is empty it reads no other. -/
def aggregateInputs (aggregates : List BoundAggregate) :
    Except Exception (List AggregationType × Slots) := do
  let slots ← collect columns aggregates
  match slots with
  | [] => .error outOfBounds
  | none :: _ => .error nullPointer
  | some first :: _ =>
    if first.columnLength > int32Max then .error (.notImplemented
      "Column length greater than INT32_MAX is not supported")
    else do
      let types ← (aggregates.zip slots).mapM fun x => aggregationType x.1 x.2
      if first.columnLength ≠ 0 ∧ slots.any (·.isNone) then .error nullPointer
      else .ok (types, slots)

end Model

section Meaning

variable (r : Relation) (aggregates : List BoundAggregate)

def cellAt (index row : Nat) : Option Bytes := (r.columns[index]?).bind (·.cell row)

/-- The filter of an aggregate is TRUE at a row. -/
def filterHolds (aggregate : BoundAggregate) (row : Nat) : Bool :=
  match aggregate.filter with
  | none => true
  | some index => isTrue (cellAt r index row)

/-- The rows an aggregate is over. -/
def filteredRows (aggregate : BoundAggregate) : List Nat :=
  (List.range r.rowCount).filter (filterHolds r aggregate)

/-- The values a column has in the rows. -/
def content (slot : Option Column) : List (Option Bytes) :=
  match slot with
  | none => []
  | some c => (List.range r.rowCount).map c.cell

/-- The column is the argument at the rows of the filter; for `*` it counts these rows. -/
def TakesArgument (aggregate : BoundAggregate) (slot : Option Column) : Prop :=
  match aggregate.children with
  | [] => slot.map (·.columnLength) = some (filteredRows r aggregate).length
  | child :: _ => content r slot = (filteredRows r aggregate).map (cellAt r child)

/-- An aggregate is over its own argument, without duplicates exactly if it is DISTINCT. -/
structure Given (aggregate : BoundAggregate) (type : AggregationType) (slot : Option Column) :
    Prop where
  deduplicated : type = .countDistinct ↔ aggregate.distinct = true
  argument : TakesArgument r aggregate slot

/-- The number of children of the aggregates before a place. -/
def payloadIndex (place : Nat) : Nat := ((aggregates.take place).map (·.children.length)).sum

/-- The column the sink takes for an aggregate: a DISTINCT one takes the column of its place,
if a DISTINCT aggregate refers to it. -/
def sourceIndex (aggregate : BoundAggregate) (place : Nat) : Option Nat :=
  if aggregate.distinct then
    if place ∈ distinctReferences aggregates then some place else none
  else some (payloadIndex aggregates place)

/-- The filter holds in every row, and the column that is taken shows the argument; the size of
`*` is that of the first column. -/
def Aligned (aggregate : BoundAggregate) (place : Nat) : Prop :=
  match aggregate.children, sourceIndex aggregates aggregate place with
  | [], _ => columnSize r.columns = (filteredRows r aggregate).length
  | child :: _, some index => ∀ row < r.rowCount, filterHolds r aggregate row = true ∧
      cellAt r index row = cellAt r child row
  | _ :: _, none => ∀ row < r.rowCount, filterHolds r aggregate row = false

end Meaning

section Collection

variable {columns : List Column} {aggregates : List BoundAggregate} {slots slots' : Slots}

theorem readColumn_inv {index : Nat} {c' : Column} (run : readColumn columns index = .ok c') :
    ∃ c, columns[index]? = some c ∧ Materialized c c' := by
  rw [readColumn] at run
  cases here : columns[index]? with
  | none =>
      simp only [here] at run
      cases run
  | some c =>
      simp only [here] at run
      exact ⟨c, rfl, (materialize_inv run).2⟩

/-- A slot with what a column materializes to. -/
def Reads (columns : List Column) (index : Nat) (slot : Option Column) : Prop :=
  ∃ c c', columns[index]? = some c ∧ slot = some c' ∧ Materialized c c'

theorem materializeDistinctInput_inv {references : List Nat}
    (run : materializeDistinctInput columns references slots = .ok slots') :
    slots'.length = slots.length ∧ ∀ (place : Nat) (slot : Option Column),
      slots'[place]? = some slot →
        place ∈ references ∧ Reads columns place slot ∨
          place ∉ references ∧ slots[place]? = some slot := by
  induction references generalizing slots with
  | nil =>
      cases run
      exact ⟨rfl, fun place slot here => Or.inr ⟨List.not_mem_nil, here⟩⟩
  | cons index rest ih =>
      obtain ⟨column, read, run⟩ := bind_ok_iff.mp run
      obtain ⟨c, here, materialized⟩ := readColumn_inv read
      split at run
      case isFalse => cases run
      case isTrue inside =>
        obtain ⟨length, each⟩ := ih run
        refine ⟨by simpa using length, fun place slot held => ?_⟩
        rcases each place slot held with ⟨later, reads⟩ | ⟨not, before⟩
        · exact Or.inl ⟨List.mem_cons_of_mem _ later, reads⟩
        · by_cases same : index = place
          · subst same
            rw [List.getElem?_set_self inside] at before
            exact Or.inl ⟨List.mem_cons_self, c, column, here, (Option.some.inj before).symm,
              materialized⟩
          · rw [List.getElem?_set_ne same] at before
            refine Or.inr ⟨fun member => ?_, before⟩
            rcases List.mem_cons.mp member with equal | member
            · exact same equal.symm
            · exact not member

/-- What an aggregate that is not DISTINCT reads; the slots of the others are left. -/
def Payload (columns : List Column) (index : Nat) (aggregate : BoundAggregate)
    (slot slot' : Option Column) : Prop :=
  if aggregate.distinct = true ∨ aggregate.children = [] then slot' = slot
  else Reads columns index slot'

theorem payloadSlot_inv {index : Nat} {aggregate : BoundAggregate} {slot slot' : Option Column}
    (run : payloadSlot columns index aggregate slot = .ok slot') :
    Payload columns index aggregate slot slot' := by
  rw [payloadSlot] at run
  rw [Payload]
  split at run
  case isTrue distinct =>
    cases run
    rw [if_pos (Or.inl distinct)]
  case isFalse plain =>
    cases children : aggregate.children with
    | nil =>
        simp only [children] at run
        cases run
        rw [if_pos (Or.inr rfl)]
    | cons child rest =>
        have some : ¬ (aggregate.distinct = true ∨ child :: rest = []) := by simp [plain]
        rw [if_neg some]
        cases rest with
        | nil =>
            simp only [children] at run
            obtain ⟨column, read, same⟩ := bind_ok_iff.mp run
            cases same
            obtain ⟨c, here, materialized⟩ := readColumn_inv read
            exact ⟨c, column, here, rfl, materialized⟩
        | cons _ _ =>
            simp only [children] at run
            cases run

theorem readPayload_inv {base : Nat} (length : slots.length = aggregates.length)
    (run : readPayload columns base aggregates slots = .ok slots') :
    slots'.length = aggregates.length ∧ ∀ (place : Nat) (aggregate : BoundAggregate)
      (slot' : Option Column), aggregates[place]? = some aggregate → slots'[place]? = some slot' →
        ∃ slot, slots[place]? = some slot ∧
          Payload columns (base + payloadIndex aggregates place) aggregate slot slot' := by
  induction aggregates generalizing base slots slots' with
  | nil =>
      have none : slots = [] := List.length_eq_zero_iff.mp length
      rw [none] at run
      cases run
      exact ⟨rfl, nofun⟩
  | cons first rest ih =>
      cases slots with
      | nil => cases length
      | cons slot slots =>
          rw [readPayload] at run
          obtain ⟨head, read, run⟩ := bind_ok_iff.mp run
          obtain ⟨tail, later, same⟩ := bind_ok_iff.mp run
          cases same
          obtain ⟨length', each⟩ := ih (by simpa using length) later
          refine ⟨by simpa using length', fun place aggregate slot' here held => ?_⟩
          cases place with
          | zero =>
              cases here
              cases held
              exact ⟨slot, rfl, by simpa [payloadIndex] using payloadSlot_inv read⟩
          | succ place =>
              obtain ⟨slot'', before, payload⟩ := each place aggregate slot' here held
              refine ⟨slot'', before, ?_⟩
              simpa [payloadIndex, Nat.add_assoc] using payload

/-- What the sink collects for an aggregate at a place. -/
def Collected (columns : List Column) (aggregates : List BoundAggregate)
    (aggregate : BoundAggregate) (place : Nat) (slot : Option Column) : Prop :=
  if aggregate.children = [] then slot = some (starColumn columns)
  else match sourceIndex aggregates aggregate place with
    | some index => Reads columns index slot
    | none => slot = none

theorem collect_inv (run : collect columns aggregates = .ok slots) :
    slots.length = aggregates.length ∧ ∀ (place : Nat) (aggregate : BoundAggregate)
      (slot : Option Column), aggregates[place]? = some aggregate → slots[place]? = some slot →
        Collected columns aggregates aggregate place slot := by
  obtain ⟨written, distinct, run⟩ := bind_ok_iff.mp run
  obtain ⟨filled, payload, same⟩ := bind_ok_iff.mp run
  cases same
  obtain ⟨length, writes⟩ := materializeDistinctInput_inv distinct
  rw [List.length_map] at length
  obtain ⟨length', reads⟩ := readPayload_inv length payload
  refine ⟨by simp [length'], fun place aggregate slot here held => ?_⟩
  rw [List.getElem?_zipWith, here] at held
  cases before : filled[place]? with
  | none => simp [before] at held
  | some slot' =>
      have passed : passStar columns aggregate slot' = slot := by simpa [before] using held
      obtain ⟨slot'', first, read⟩ := reads place aggregate slot' here before
      rw [Collected, ← passed, passStar]
      by_cases star : aggregate.children = []
      · rw [if_pos star, if_pos star]
      · rw [if_neg star, if_neg star]
        rw [Payload] at read
        by_cases plain : aggregate.distinct = true
        · rw [if_pos (Or.inl plain)] at read
          rw [sourceIndex, if_pos plain, read]
          rcases writes place slot'' first with ⟨referred, reads'⟩ | ⟨not, start⟩
          · rw [if_pos referred]
            exact reads'
          · rw [if_neg not]
            rw [List.getElem?_map, here, Option.map_some] at start
            exact (Option.some.inj start).symm
        · rw [if_neg (by simp [plain, star]), Nat.zero_add] at read
          rw [sourceIndex, if_neg plain]
          exact read

end Collection

section Correctness

variable {r : Relation} {aggregates : List BoundAggregate} {aggregate : BoundAggregate}
  {place : Nat} {slot : Option Column} {types : List AggregationType} {slots : Slots}

/-- Of a filtered list all members are left if it is as long. -/
theorem map_eq_map_filter_iff {α β : Type} {l : List α} {p : α → Bool} {f g : α → β} :
    l.map f = (l.filter p).map g ↔ ∀ a ∈ l, p a = true ∧ f a = g a := by
  constructor
  · intro same
    have length := congrArg List.length same
    rw [List.length_map, List.length_map] at length
    have all := List.length_filter_eq_length_iff.mp length.symm
    rw [List.filter_eq_self.mpr all] at same
    exact fun a member => ⟨all a member, List.map_inj_left.mp same a member⟩
  · intro both
    rw [List.filter_eq_self.mpr fun a member => (both a member).1]
    exact List.map_congr_left fun a member => (both a member).2

theorem content_reads {index : Nat} (reads : Reads r.columns index slot) :
    content r slot = (List.range r.rowCount).map (cellAt r index) := by
  obtain ⟨c, c', here, rfl, materialized⟩ := reads
  refine List.map_congr_left fun row _ => ?_
  rw [cellAt, here, Option.bind_some, Column.cell, Column.cell, materialized.shown]

theorem takes_iff_aligned (collected : Collected r.columns aggregates aggregate place slot) :
    TakesArgument r aggregate slot ↔ Aligned r aggregates aggregate place := by
  rw [Collected] at collected
  rw [TakesArgument, Aligned]
  cases children : aggregate.children with
  | nil =>
      rw [if_pos children] at collected
      rw [collected]
      exact Option.some_inj
  | cons child rest =>
      rw [if_neg (by simp [children])] at collected
      cases source : sourceIndex aggregates aggregate place with
      | none =>
          simp only [source] at collected ⊢
          rw [collected, content, eq_comm, List.map_eq_nil_iff, filteredRows,
            List.filter_eq_nil_iff]
          simp
      | some index =>
          simp only [source] at collected ⊢
          rw [content_reads collected, filteredRows, map_eq_map_filter_iff]
          simp

theorem ite_ne {α : Type} {p : Prop} [Decidable p] {a b c : α} (first : a ≠ c) (second : b ≠ c) :
    (if p then a else b) ≠ c := by
  split
  · exact first
  · exact second

theorem plainType_ne (name : String) (c : Column) :
    plainType name c ≠ .ok .countDistinct := by
  unfold plainType
  repeat' apply ite_ne
  all_goals nofun

theorem aggregationType_inv {type : AggregationType}
    (run : aggregationType aggregate slot = .ok type) :
    type = .countDistinct ↔ aggregate.distinct = true := by
  unfold aggregationType at run
  split at run
  case isTrue distinct =>
    split at run
    · cases run
      simp [distinct]
    · cases run
  case isFalse plain =>
    cases slot with
    | none => cases run
    | some c =>
        constructor
        · rintro rfl
          exact absurd run (plainType_ne _ _)
        · exact fun distinct => absurd distinct plain

/-- The first column cudf can count decides whether a slot may be missing. -/
theorem aggregateInputs_inv (run : aggregateInputs r.columns aggregates = .ok (types, slots)) :
    collect r.columns aggregates = .ok slots ∧
      (aggregates.zip slots).mapM (fun x => aggregationType x.1 x.2) = .ok types ∧
        ∃ first rest, slots = some first :: rest ∧ first.columnLength ≤ int32Max ∧
          (first.columnLength ≠ 0 → none ∉ slots) := by
  obtain ⟨slots', collected, run⟩ := bind_ok_iff.mp run
  rcases slots' with _ | ⟨_ | first, rest⟩
  · cases run
  · cases run
  · simp only at run
    split at run
    · cases run
    · obtain ⟨types', typed, run⟩ := bind_ok_iff.mp run
      split at run
      · cases run
      case isFalse whole =>
        cases run
        refine ⟨collected, typed, first, rest, rfl, by omega, fun some member => ?_⟩
        exact whole ⟨some, List.any_eq_true.mpr ⟨none, member, rfl⟩⟩

/-- When every aggregate is over its own argument: the columns that are taken must show the
arguments, and no filter exclude a row. -/
theorem given_iff_aligned (run : aggregateInputs r.columns aggregates = .ok (types, slots)) :
    (∀ (place : Nat) aggregate type slot, aggregates[place]? = some aggregate →
        types[place]? = some type → slots[place]? = some slot → Given r aggregate type slot) ↔
      ∀ (place : Nat) aggregate, aggregates[place]? = some aggregate →
        Aligned r aggregates aggregate place := by
  obtain ⟨collected, typed, -⟩ := aggregateInputs_inv run
  obtain ⟨length, each⟩ := collect_inv collected
  have length' : types.length = aggregates.length := by
    rw [← (mapM_ok_iff.mp typed).length_eq, List.length_zip, length, Nat.min_self]
  constructor
  · intro given place aggregate here
    obtain ⟨inside, -⟩ := List.getElem?_eq_some_iff.mp here
    have slot := List.getElem?_eq_getElem (l := slots) (i := place) (by omega)
    have type := List.getElem?_eq_getElem (l := types) (i := place) (by omega)
    exact (takes_iff_aligned (each place aggregate _ here slot)).mp
      (given place aggregate _ _ here type slot).argument
  · intro aligned place aggregate type slot here type' slot'
    constructor
    · obtain ⟨x, pair, made⟩ := mapM_getElem? typed type'
      obtain ⟨here', slot''⟩ := List.getElem?_zip_eq_some.mp pair
      rw [here] at here'
      rw [slot'] at slot''
      cases here'
      cases slot''
      exact aggregationType_inv made
    · exact (takes_iff_aligned (each place aggregate slot here slot')).mpr
        (aligned place aggregate here)

end Correctness

section Extraction

variable {r : Relation} {plan : List Aggregate} {aggregate : BoundAggregate}

/-- Without filters the running index is that of the argument. -/
theorem extract_unfiltered (unfiltered : ∀ aggr ∈ plan, aggr.filtered = false)
    {expressions place : Nat}
    (here : (extractAggregateExpressions expressions plan)[place]? = some aggregate) :
    aggregate.filter = none ∧ ∀ child ∈ aggregate.children.head?,
      child = expressions +
        payloadIndex (extractAggregateExpressions expressions plan) place := by
  induction plan generalizing expressions place with
  | nil => cases here
  | cons aggr rest ih =>
      have plain := unfiltered aggr List.mem_cons_self
      have split : extractAggregateExpressions expressions (aggr :: rest) =
          ⟨aggr.name, (List.range aggr.arguments).map (expressions + ·), none, aggr.distinct⟩ ::
            extractAggregateExpressions (expressions + aggr.arguments) rest := by
        rw [extractAggregateExpressions]
        simp [plain]
      rw [split] at here ⊢
      cases place with
      | zero =>
          cases here
          refine ⟨rfl, fun child member => ?_⟩
          cases count : aggr.arguments with
          | zero => simp [count] at member
          | succ n => simpa [payloadIndex, count, List.range_succ_eq_map, eq_comm] using member
      | succ place =>
          obtain ⟨none, children⟩ :=
            ih (fun aggr member => unfiltered aggr (List.mem_cons_of_mem _ member)) here
          refine ⟨none, fun child member => ?_⟩
          rw [children child member]
          simp [payloadIndex, Nat.add_assoc]

/-- In a plan without filters a plain aggregate takes its own argument wherever it stands. -/
theorem aligned_of_unfiltered (unfiltered : ∀ aggr ∈ plan, aggr.filtered = false) {place : Nat}
    (here : (extractAggregateExpressions 0 plan)[place]? = some aggregate)
    (plain : aggregate.distinct = false) (argument : aggregate.children ≠ []) :
    Aligned r (extractAggregateExpressions 0 plan) aggregate place := by
  obtain ⟨none, first⟩ := extract_unfiltered unfiltered here
  obtain ⟨child, rest, children⟩ := List.exists_cons_of_ne_nil argument
  have same := first child (by rw [children]; rfl)
  have source : sourceIndex (extractAggregateExpressions 0 plan) aggregate place =
      some child := by
    rw [sourceIndex, plain, if_neg Bool.false_ne_true, same, Nat.zero_add]
  simp only [Aligned, children, source]
  intro row _
  constructor
  · rw [filterHolds, none]
  · trivial

end Extraction

section Witness

def integers (bytes : List UInt8) : Column :=
  plainColumn .int32 (bytes.map fun byte => ⟨[byte, 0, 0, 0], true⟩) (4 * bytes.length) false

def flags (bytes : List UInt8) : Column :=
  plainColumn .boolean (bytes.map fun byte => ⟨[byte], true⟩) bytes.length false

def relation (columns : List Column) (rowCount : Nat) (some : columns ≠ [])
    (even : ∀ c ∈ columns, c.rowCount = rowCount) (plain : ∀ c ∈ columns, c.type ≠ .varchar)
    (data : ∀ c ∈ columns, c.entries ≠ none) : Relation where
  columns := columns
  rowCount := rowCount
  some := some
  even := fun c member _ => even c member
  empty := fun c member null => absurd null (data c member)
  measured := fun c member string => absurd string (plain c member)

/-- `sum(a) FILTER (WHERE f), sum(b)` over two rows. -/
def filteredSums : List Aggregate :=
  [⟨"sum", 1, true, false, by decide⟩, ⟨"sum", 1, false, false, by decide⟩]

def sums : List Aggregate :=
  [⟨"sum", 1, false, false, by decide⟩, ⟨"sum", 1, false, false, by decide⟩]

def twoColumns : Relation :=
  relation [integers [1, 2], integers [3, 4]] 2 (List.cons_ne_nil _ _) (by decide) (by decide)
    (by decide)

def threeColumns : Relation :=
  relation [integers [1, 2], flags [1, 0], integers [3, 4]] 2 (List.cons_ne_nil _ _) (by decide)
    (by decide) (by decide)

theorem sums_inputs : aggregateInputs twoColumns.columns (extractAggregateExpressions 0 sums) =
    .ok ([.sum, .sum], [some (integers [1, 2]), some (integers [3, 4])]) := by
  rfl

theorem filteredSums_inputs :
    aggregateInputs threeColumns.columns (extractAggregateExpressions 0 filteredSums) =
      .ok ([.sum, .sum], [some (integers [1, 2]), some (flags [1, 0])]) := by
  rfl

/-- Two sums without filters take their own arguments. -/
theorem sums_given :
    aggregateInputs twoColumns.columns (extractAggregateExpressions 0 sums) =
      .ok ([.sum, .sum], [some (integers [1, 2]), some (integers [3, 4])]) ∧
    ∀ (place : Nat) aggregate type slot,
      (extractAggregateExpressions 0 sums)[place]? = some aggregate →
        [AggregationType.sum, .sum][place]? = some type →
          [some (integers [1, 2]), some (integers [3, 4])][place]? = some slot →
            Given twoColumns aggregate type slot := by
  refine ⟨sums_inputs, (given_iff_aligned sums_inputs).mpr fun place aggregate here => ?_⟩
  have each : ∀ aggregate ∈ extractAggregateExpressions 0 sums,
      aggregate.distinct = false ∧ aggregate.children ≠ [] := by decide
  obtain ⟨plain, argument⟩ := each aggregate (List.mem_of_getElem? here)
  exact aligned_of_unfiltered (by decide) here plain argument

/-- After an aggregate with a filter the next takes the column of the filter. -/
theorem filter_taken : ∃ types slots,
    aggregateInputs threeColumns.columns (extractAggregateExpressions 0 filteredSums) =
      .ok (types, slots) ∧ ¬ ∀ (place : Nat) aggregate type slot,
        (extractAggregateExpressions 0 filteredSums)[place]? = some aggregate →
          types[place]? = some type → slots[place]? = some slot →
            Given threeColumns aggregate type slot := by
  refine ⟨_, _, filteredSums_inputs, fun given => ?_⟩
  have second := (given 1 ⟨"sum", [2], none, false⟩ .sum (some (flags [1, 0])) rfl rfl rfl).argument
  have same : content threeColumns (some (flags [1, 0])) =
    [some [3, 0, 0, 0], some [4, 0, 0, 0]] := second
  exact absurd same (by decide)

end Witness

end AggregateInputs
