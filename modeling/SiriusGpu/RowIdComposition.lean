import Mathlib
import SiriusGpu.FallibleMaps
import SiriusGpu.FilterSelection
import SiriusGpu.Materialize

/-!
# Composition of row ids

An operator above the scans leaves the data of its columns in place and composes their row ids
with those of the rows it selects. Columns that share a vector of row ids share the composed one:
the vectors met in a call are remembered by their pointers. The vector that was composed is freed.
A column is materialized where its values are needed.
-/

namespace RowIdComposition

open ThrowingState GpuMemory GpuColumns FallibleMaps
open Materialize (loadRowIds loadRowIds_run handleMaterializeExpression materializable Consumed
  handleMaterializeExpression_run)

section Model

/-- `materializeWithoutNull` of a vector of row ids. -/
def materializeWithoutNull (a rowIds : Handle) (resultLen : Nat) : Action Handle := do
  let words ← load Content.asWords a
  let ids ← loadRowIds rowIds resultLen
  let result ← customCudaMalloc (.words (ids.map (words.getD · 0)))
  customCudaFree (some a)
  pure result

/-- `prev_row_ids` and `new_row_ids`, entry by entry. -/
abbrev Memo := List (Handle × Handle)

/-- The row ids of an output column; without `row_ids` it gets none. -/
def composeRowIds (rowIds : Option Handle) (count : Nat) (c : GPUColumn) (memo : Memo) :
    Action (Option Handle × Memo) :=
  match rowIds, c.rowIds with
  | none, _ => pure (none, memo)
  | some rowIds, none => pure (some rowIds, memo)
  | some rowIds, some previous =>
    match memo.lookup previous with
    | some composed => pure (some composed, memo)
    | none => do
      let composed ← materializeWithoutNull previous rowIds count
      pure (some composed, memo ++ [(previous, composed)])

/-- An output column without rows. -/
def noRows (maintainUnique : Bool) (c : GPUColumn) : GPUColumn :=
  (newStringColumn 0 c.type none none 0 c.dataWrapper.isStringData none).setUnique
    (maintainUnique && c.isUnique)

/-- An output column over the data of its input column. -/
def lateColumn (maintainUnique : Bool) (c : GPUColumn) (rowIds : Option Handle) (count : Nat) :
    GPUColumn :=
  { (newStringColumn c.columnLength c.type c.dataWrapper.data c.dataWrapper.offset
      c.dataWrapper.numBytes c.dataWrapper.isStringData c.dataWrapper.validityMask).setUnique
        (maintainUnique && c.isUnique) with
    rowIds := rowIds
    rowIdCount := count }

/-- The loop over the columns. -/
def materializeColumns (maintainUnique : Bool) (count : Nat) (rowIds : Option Handle) :
    List GPUColumn → Memo → Action (List GPUColumn)
  | [], _ => pure []
  | c :: rest, memo =>
    if count = 0 then do
      let output ← materializeColumns maintainUnique count rowIds rest memo
      pure (noRows maintainUnique c :: output)
    else do
      let (composed, memo) ← composeRowIds rowIds count c memo
      let output ← materializeColumns maintainUnique count rowIds rest memo
      pure (lateColumn maintainUnique c composed count :: output)

/-- The columns of a relation at some places. -/
def columnsAt (relation : GPUIntermediateRelation) (places : List Nat) :
    Action GPUIntermediateRelation :=
  match places.mapM (relation[·]?) with
  | some columns => pure columns
  | none => Proc.raise .fault

def handleMaterializeRowIDs (inputRelation : GPUIntermediateRelation) (count : Nat)
    (rowIds : Option Handle) (maintainUnique : Bool) : Action GPUIntermediateRelation :=
  materializeColumns maintainUnique count rowIds inputRelation []

def handleMaterializeRowIDsLHS (inputRelation : GPUIntermediateRelation)
    (lhsOutputColumns : List Nat) (count : Nat) (rowIds : Option Handle) (maintainUnique : Bool) :
    Action GPUIntermediateRelation := do
  let columns ← columnsAt inputRelation lhsOutputColumns
  materializeColumns maintainUnique count rowIds columns []

/-- The columns go behind those of the left side. -/
def handleMaterializeRowIDsRHS (hashTableResult : GPUIntermediateRelation)
    (rhsOutputColumns : List Nat) (count : Nat) (rowIds : Option Handle) (maintainUnique : Bool) :
    Action GPUIntermediateRelation := do
  let columns ← columnsAt hashTableResult rhsOutputColumns
  materializeColumns maintainUnique count rowIds columns []

end Model

section Contents

/-- The type and the values of a column. -/
abbrev Contents := GPUColumnType × List (Option Bytes)

def Holds (s : State) (c : GPUColumn) (contents : Contents) : Prop :=
  c.type = contents.1 ∧ logical s c = some contents.2

def gathered (rowIds : List Nat) (contents : Contents) : Contents :=
  (contents.1, rowIds.map fun i => contents.2.getD i none)

/-- Row ids are read with their column: they are words, known to the allocator. -/
structure Owned (s : State) (columns : List GPUColumn) : Prop where
  known : ∀ c ∈ columns, ∀ h ∈ c.rowIds, s.Known h
  apart : ∀ c ∈ columns, ∀ h ∈ c.rowIds, ∀ c' ∈ columns, h ∉ c'.buffers

/-- The composed vectors, each with the one it is composed of. -/
structure Sound (start s : State) (rowIds : List Nat) (memo : Memo) : Prop where
  composed : ∀ p ∈ memo, ∃ words, start.at Content.asWords p.1 = some words ∧
    s.at Content.asWords p.2 = some (rowIds.map (words.getD · 0))
  new : ∀ p ∈ memo, start.New p.2 ∧ s.Known p.2

theorem sound_nil (s : State) (rowIds : List Nat) : Sound s s rowIds [] where
  composed := fun _ member => absurd member List.not_mem_nil
  new := fun _ member => absurd member List.not_mem_nil

end Contents

section Step

variable {start s : State} {rowIds : List Nat} {memo : Memo} {h : Handle}

theorem mem_of_lookup {g q : Handle} (found : memo.lookup g = some q) : (g, q) ∈ memo := by
  induction memo with
  | nil => cases found
  | cons p rest ih =>
    obtain ⟨g', q'⟩ := p
    rw [List.lookup_cons] at found
    split at found
    case h_1 same =>
      rw [eq_of_beq same]
      cases found
      exact List.mem_cons_self
    case h_2 => exact List.mem_cons_of_mem _ (ih found)

theorem not_mem_of_lookup {g : Handle} (none : memo.lookup g = none) : g ∉ memo.map Prod.fst := by
  intro member
  obtain ⟨⟨g', q⟩, inside, rfl⟩ := List.mem_map.mp member
  rw [List.lookup_eq_none_iff] at none
  have other := none _ inside
  simp at other

/-- A composition makes a new vector and frees the one it reads. -/
theorem materializeWithoutNull_run {p : Handle} {words : List Nat} (fresh : s.Fresh)
    (known : s.Known p) (atP : s.at Content.asWords p = some words)
    (atH : s.at Content.asWords h = some rowIds) :
    ∃ s', materializeWithoutNull p h rowIds.length s = (.ok (.processing s.next), s') ∧
      Keeps s s' (· = p) ∧ s'.Known (.processing s.next) ∧
        s'.at Content.asWords (.processing s.next) = some (rowIds.map (words.getD · 0)) := by
  let content := Content.words (rowIds.map (words.getD · 0))
  have allocated : Keeps s (s.allocate content) fun _ => False := keeps_allocate fresh content
  have apart : p ≠ .processing s.next := by
    rintro rfl
    exact fresh.unknown _ (new_next s) known
  obtain ⟨s', freed, keeps⟩ := customCudaFree_run allocated.fresh (some p) (by
    rintro g ⟨⟩
    exact allocated.known p known (by simp))
  have stays : .processing s.next ∉ some p := fun freed => apart (Option.some.inj freed)
  have loaded : loadRowIds h rowIds.length s = (.ok rowIds, s) := by
    rw [loadRowIds, Proc.bind_ok (load_ok atH), if_pos (Nat.le_refl _), List.take_length]
    rfl
  refine ⟨s', ?_, (allocated.trans keeps).mono (by simp [eq_comm]),
    keeps.known _ (known_of_allocated List.mem_cons_self) fun freed => absurd freed stays,
    keeps.at (fun freed => absurd freed stays) (at_allocate content Content.asWords)⟩
  rw [materializeWithoutNull, Proc.bind_ok (load_ok atP), Proc.bind_ok loaded,
    Proc.bind_ok (customCudaMalloc_run content), Proc.bind_ok freed]
  rfl

/-- Another composed vector, for which only the one it is composed of was freed. -/
theorem Sound.remember {s' : State} {p q : Handle} {words : List Nat}
    (sound : Sound start s rowIds memo) (later : Keeps s s' (· = p))
    (apart : ∀ g, start.New g → g ≠ p) (atP : start.at Content.asWords p = some words)
    (new : start.New q) (known : s'.Known q)
    (atQ : s'.at Content.asWords q = some (rowIds.map (words.getD · 0))) :
    Sound start s' rowIds (memo ++ [(p, q)]) := by
  constructor
  · intro r member
    rcases List.mem_append.mp member with before | last
    · obtain ⟨words', atWords, at'⟩ := sound.composed r before
      exact ⟨words', atWords,
        later.at (fun same => absurd same (apart _ (sound.new r before).1)) at'⟩
    · rw [List.mem_singleton.mp last]
      exact ⟨words, atP, atQ⟩
  · intro r member
    rcases List.mem_append.mp member with before | last
    · obtain ⟨new', known'⟩ := sound.new r before
      exact ⟨new', later.known _ known' fun same => absurd same (apart _ new')⟩
    · rw [List.mem_singleton.mp last]
      exact ⟨new, known⟩

/-- One column: its row ids are those of the call, remembered ones, or composed now. -/
theorem composeRowIds_run {c : GPUColumn} (sound : Sound start s rowIds memo)
    (keeps : Keeps start s (· ∈ memo.map Prod.fst))
    (given : start.at Content.asWords h = some rowIds) (kept : h ∉ memo.map Prod.fst)
    (read : ∀ p ∈ c.rowIds, p ≠ h ∧ start.Known p ∧
      ∃ words, start.at Content.asWords p = some words) :
    ∃ q memo' s', composeRowIds (some h) rowIds.length c memo s = (.ok (some q, memo'), s') ∧
      Sound start s' rowIds memo' ∧ Keeps start s' (· ∈ memo'.map Prod.fst) ∧
      (∀ p ∈ memo, p ∈ memo') ∧ (∀ g ∈ memo'.map Prod.fst, g ∈ memo.map Prod.fst ∨ g ∈ c.rowIds) ∧
      match c.rowIds with
      | none => q = h
      | some p => (p, q) ∈ memo' := by
  cases ids : c.rowIds with
  | none =>
    refine ⟨h, memo, s, ?_, sound, keeps, fun _ member => member, fun _ member => .inl member, rfl⟩
    simp only [composeRowIds, ids]
    rfl
  | some p =>
    obtain ⟨other, known, words, atWords⟩ := read p (by rw [ids]; rfl)
    cases found : memo.lookup p with
    | some q =>
      refine ⟨q, memo, s, ?_, sound, keeps, fun _ member => member, fun _ member => .inl member,
        mem_of_lookup found⟩
      simp only [composeRowIds, ids, found]
      rfl
    | none =>
      have first := not_mem_of_lookup found
      obtain ⟨s', composed, later, known', atQ⟩ := materializeWithoutNull_run keeps.fresh
        (keeps.known p known fun member => absurd member first)
        (keeps.at (fun member => absurd member first) atWords)
        (keeps.at (fun member => absurd member kept) given)
      have apart : ∀ q, start.New q → q ≠ p := by
        rintro q new rfl
        exact keeps.old.not_new (live_of_at atWords) new
      have fresh : start.New (.processing s.next) := ⟨s.next, keeps.next, rfl⟩
      refine ⟨.processing s.next, memo ++ [(p, .processing s.next)], s', ?_,
        sound.remember later apart atWords fresh known' atQ, ?_,
        fun _ member => List.mem_append_left _ member, ?_, by simp⟩
      · simp only [composeRowIds, ids, found]
        rw [Proc.bind_ok composed]
        rfl
      · refine (keeps.trans later).mono fun g => ?_
        rintro (before | rfl)
        · rw [List.map_append]
          exact List.mem_append_left _ before
        · simp
      · intro g member
        rw [List.map_append, List.mem_append] at member
        rcases member with before | last
        · exact .inl before
        · rw [List.map_singleton, List.mem_singleton] at last
          rw [last]
          exact .inr rfl

/-- What an output column is. -/
def Linked (h : Handle) (memo : Memo) (maintainUnique : Bool) (count : Nat) (c c' : GPUColumn) :
    Prop :=
  ∃ q, c' = lateColumn maintainUnique c (some q) count ∧
    match c.rowIds with
    | none => q = h
    | some p => (p, q) ∈ memo

theorem Linked.mono {memo' : Memo} {maintainUnique : Bool} {count : Nat} {c c' : GPUColumn}
    (linked : Linked h memo maintainUnique count c c') (more : ∀ p ∈ memo, p ∈ memo') :
    Linked h memo' maintainUnique count c c' := by
  obtain ⟨q, made, from'⟩ := linked
  refine ⟨q, made, ?_⟩
  cases ids : c.rowIds with
  | none =>
    rw [ids] at from'
    exact from'
  | some p =>
    rw [ids] at from'
    exact more _ from'

/-- All columns, with what is remembered from the columns before. -/
theorem materializeColumns_run (maintainUnique : Bool) (some' : rowIds ≠ [])
    (given : start.at Content.asWords h = some rowIds) {columns : List GPUColumn}
    (read : ∀ c ∈ columns, ∀ p ∈ c.rowIds, p ≠ h ∧ start.Known p ∧
      ∃ words, start.at Content.asWords p = some words) (sound : Sound start s rowIds memo)
    (keeps : Keeps start s (· ∈ memo.map Prod.fst)) (kept : h ∉ memo.map Prod.fst) :
    ∃ output memo' s',
      materializeColumns maintainUnique rowIds.length (some h) columns memo s = (.ok output, s') ∧
      Sound start s' rowIds memo' ∧ Keeps start s' (· ∈ memo'.map Prod.fst) ∧
      (∀ p ∈ memo, p ∈ memo') ∧
      (∀ g ∈ memo'.map Prod.fst, g ∈ memo.map Prod.fst ∨ ∃ c ∈ columns, g ∈ c.rowIds) ∧
      List.Forall₂ (Linked h memo' maintainUnique rowIds.length) columns output := by
  have count : rowIds.length ≠ 0 := fun none => some' (List.length_eq_zero_iff.mp none)
  induction columns generalizing memo s with
  | nil => exact ⟨[], memo, s, rfl, sound, keeps, fun _ member => member, fun _ member =>
      .inl member, .nil⟩
  | cons c rest ih =>
    obtain ⟨q, memo₁, s₁, run₁, sound₁, keeps₁, more₁, bound₁, from'⟩ :=
      composeRowIds_run sound keeps given kept (read c List.mem_cons_self)
    have kept₁ : h ∉ memo₁.map Prod.fst := by
      intro member
      rcases bound₁ h member with before | own
      · exact kept before
      · exact (read c List.mem_cons_self h own).1 rfl
    obtain ⟨output, memo₂, s₂, run₂, sound₂, keeps₂, more₂, bound₂, all⟩ :=
      ih (fun c' member => read c' (List.mem_cons_of_mem _ member)) sound₁ keeps₁ kept₁
    refine ⟨lateColumn maintainUnique c (some q) rowIds.length :: output, memo₂, s₂, ?_, sound₂,
      keeps₂, fun p member => more₂ p (more₁ p member), ?_, .cons ?_ all⟩
    · rw [materializeColumns, if_neg count, Proc.bind_ok run₁]
      exact Proc.bind_ok run₂
    · intro g member
      rcases bound₂ g member with before | ⟨c', inside, own⟩
      · rcases bound₁ g before with before | own
        · exact .inl before
        · exact .inr ⟨c, List.mem_cons_self, own⟩
      · exact .inr ⟨c', List.mem_cons_of_mem _ inside, own⟩
    · exact Linked.mono ⟨q, rfl, from'⟩ more₂

end Step

section Calls

variable {s s' : State} {rowIds : List Nat} {memo : Memo} {h : Handle} {c c' : GPUColumn}
  {maintainUnique : Bool}

/-- The row ids of an output column are those of its input column at the selected rows. -/
theorem Linked.ids (linked : Linked h memo maintainUnique rowIds.length c c')
    (sound : Sound s s' rowIds memo) (keeps : Keeps s s' (· ∈ memo.map Prod.fst))
    (given : s.at Content.asWords h = some rowIds) (kept : h ∉ memo.map Prod.fst)
    {previous : List Nat} (ids : idsOf s c = some previous)
    (within : ∀ i ∈ rowIds, i < previous.length) :
    idsOf s' c' = some (rowIds.map (previous.getD · 0)) := by
  obtain ⟨q, rfl, from'⟩ := linked
  have inside := idsOf_mem ids
  suffices atQ : s'.at Content.asWords q = some (rowIds.map (previous.getD · 0)) by
    have all : ∀ i ∈ (rowIds.map (previous.getD · 0)).take rowIds.length, i < c.columnLength := by
      intro i member
      obtain ⟨row, selected, rfl⟩ := List.mem_map.mp (List.mem_of_mem_take member)
      rw [List.getD_eq_getElem _ _ (within row selected)]
      exact inside _ (List.getElem_mem _)
    have room : rowIds.length ≤ (rowIds.map (previous.getD · 0)).length := by
      rw [List.length_map]
    have taken : (rowIds.map (previous.getD · 0)).take rowIds.length =
        rowIds.map (previous.getD · 0) := List.take_of_length_le (by rw [List.length_map])
    refine Option.bind_eq_some_iff.mpr ⟨_, atQ, ?_⟩
    exact (if_pos ⟨room, all⟩).trans (congrArg some taken)
  unfold idsOf at ids
  cases late : c.rowIds with
  | none =>
    rw [late] at from' ids
    cases from'
    cases ids
    rw [keeps.at (fun member => absurd member kept) given]
    congr 1
    refine (List.map_id rowIds).symm.trans (List.map_congr_left fun i member => ?_)
    rw [List.getD_eq_getElem _ _ (within i member), List.getElem_range]
    rfl
  | some p =>
    rw [late] at from' ids
    obtain ⟨words, atP, atQ⟩ := sound.composed _ from'
    obtain ⟨words', atP', rest⟩ := Option.bind_eq_some_iff.mp ids
    cases atP.symm.trans atP'
    rw [atQ]
    split at rest
    · cases rest
      congr 1
      refine List.map_congr_left fun i member => ?_
      have small := within i member
      have long : i < words.length := Nat.lt_of_lt_of_le small (List.length_take_le' _ _)
      rw [List.getD_eq_getElem _ _ small, List.getD_eq_getElem _ _ long, List.getElem_take]
    · cases rest

theorem baseOf_lateColumn (q : Option Handle) (count : Nat) :
    baseOf s (lateColumn maintainUnique c q count) = baseOf s c := rfl

/-- An output column has the selected rows of its input column. -/
theorem Linked.holds (linked : Linked h memo maintainUnique rowIds.length c c')
    (some' : rowIds ≠ []) (sound : Sound s s' rowIds memo)
    (keeps : Keeps s s' (· ∈ memo.map Prod.fst)) (given : s.at Content.asWords h = some rowIds)
    (kept : h ∉ memo.map Prod.fst) (apart : ∀ g ∈ memo.map Prod.fst, g ∉ c.buffers)
    {contents : Contents} (holds : Holds s c contents)
    (within : ∀ i ∈ rowIds, i < contents.2.length) : Holds s' c' (gathered rowIds contents) := by
  obtain ⟨type, content⟩ := holds
  have length := logical_length content
  have rows : c.rowCount ≠ 0 := by
    obtain ⟨i, rest, rfl⟩ := List.exists_cons_of_ne_nil some'
    have first := within i List.mem_cons_self
    omega
  obtain ⟨base, previous, found, ids, same⟩ := (logical_iff rows).mp content
  have count : previous.length = contents.2.length := by rw [same, List.length_map]
  have ids' := linked.ids sound keeps given kept ids (by rwa [count])
  obtain ⟨q, rfl, -⟩ := linked
  refine ⟨type, (logical_iff ?_).mpr ⟨base, _, ?_, ids', ?_⟩⟩
  · exact fun none => some' (List.length_eq_zero_iff.mp none)
  · exact baseOf_kept keeps ((baseOf_lateColumn (some q) _).trans found)
      fun g member freed => absurd member (apart g freed)
  · rw [gathered, same, List.map_map]
    refine List.map_congr_left fun i member => ?_
    have small := within i member
    rw [← count] at small
    rw [List.getD_eq_getElem _ _ (by rwa [List.length_map]), List.getElem_map, Function.comp_apply,
      List.getD_eq_getElem _ _ small]

theorem noRows_holds {contents : Contents} (holds : Holds s c contents) :
    Holds s (noRows maintainUnique c) (gathered [] contents) := ⟨holds.1, rfl⟩

/-- The output of a call: its columns have the selected rows, its row ids are the given ones or
new, its data is that of the input. -/
structure Selected (s s' : State) (h : Handle) (columns output : List GPUColumn)
    (contents : List Contents) : Prop where
  holds : List.Forall₂ (Holds s') output contents
  keeps : Keeps s s' fun g => ∃ c ∈ columns, g ∈ c.rowIds
  rowIds : ∀ c ∈ output, ∀ g ∈ c.rowIds, g = h ∨ s.New g ∧ s'.Known g
  buffers : ∀ c' ∈ output, ∃ c ∈ columns, ∀ g ∈ c'.buffers, g ∈ c.buffers

theorem noRows_run (maintainUnique : Bool) (columns : List GPUColumn) :
    materializeColumns maintainUnique 0 (some h) columns [] s =
      (.ok (columns.map (noRows maintainUnique)), s) := by
  induction columns with
  | nil => rfl
  | cons c rest ih =>
    rw [materializeColumns, if_pos rfl, Proc.bind_ok ih]
    rfl

/-- The loop over columns with rows to select, and the vectors it has composed. -/
theorem columns_linked (fresh : s.Fresh) (given : s.at Content.asWords h = some rowIds)
    (some' : rowIds ≠ []) {columns : List GPUColumn} {contents : List Contents}
    (holds : List.Forall₂ (Holds s) columns contents)
    (within : ∀ k ∈ contents, ∀ i ∈ rowIds, i < k.2.length) (owned : Owned s columns)
    (other : ∀ c ∈ columns, h ∉ c.rowIds) (maintainUnique : Bool) : ∃ output memo s',
      materializeColumns maintainUnique rowIds.length (some h) columns [] s = (.ok output, s') ∧
        Sound s s' rowIds memo ∧ Keeps s s' (· ∈ memo.map Prod.fst) ∧
        (∀ g ∈ memo.map Prod.fst, (∃ c ∈ columns, g ∈ c.rowIds) ∧ g ≠ h ∧
          ∀ c ∈ columns, g ∉ c.buffers) ∧
        List.Forall₂ (Linked h memo maintainUnique rowIds.length) columns output := by
  have read : ∀ c ∈ columns, ∀ p ∈ c.rowIds, p ≠ h ∧ s.Known p ∧
      ∃ words, s.at Content.asWords p = some words := by
    intro c member p late
    refine ⟨fun same => other c member (same ▸ late), owned.known c member p late, ?_⟩
    obtain ⟨k, inside, type, content⟩ := exists_of_forall₂ holds member
    obtain ⟨i, rest, rfl⟩ := List.exists_cons_of_ne_nil some'
    have rows : c.rowCount ≠ 0 := by
      have first := within k inside i List.mem_cons_self
      rw [logical_length content] at first
      omega
    obtain ⟨-, previous, -, ids, -⟩ := (logical_iff rows).mp content
    unfold idsOf at ids
    rw [Option.mem_def.mp late] at ids
    obtain ⟨words, atP, -⟩ := Option.bind_eq_some_iff.mp ids
    exact ⟨words, atP⟩
  obtain ⟨output, memo, s', run, sound, keeps, -, bound, linked⟩ :=
    materializeColumns_run maintainUnique some' given read (sound_nil s rowIds)
      (Keeps.refl fresh) List.not_mem_nil
  refine ⟨output, memo, s', run, sound, keeps, fun g member => ?_, linked⟩
  obtain ⟨c, inside, late⟩ := (bound g member).resolve_left List.not_mem_nil
  exact ⟨⟨c, inside, late⟩, fun same => other c inside (same ▸ late), owned.apart c inside g late⟩

/-- What the loop does with any columns, whichever of them share their row ids. -/
theorem columns_run (fresh : s.Fresh) (given : s.at Content.asWords h = some rowIds)
    {columns : List GPUColumn} {contents : List Contents}
    (holds : List.Forall₂ (Holds s) columns contents)
    (within : ∀ k ∈ contents, ∀ i ∈ rowIds, i < k.2.length) (owned : Owned s columns)
    (other : ∀ c ∈ columns, h ∉ c.rowIds) (maintainUnique : Bool) : ∃ output s',
      materializeColumns maintainUnique rowIds.length (some h) columns [] s = (.ok output, s') ∧
      Selected s s' h columns output (contents.map (gathered rowIds)) := by
  by_cases some' : rowIds = []
  · subst some'
    refine ⟨columns.map (noRows maintainUnique), s, noRows_run maintainUnique columns, ?_⟩
    constructor
    · rw [List.forall₂_map_left_iff, List.forall₂_map_right_iff]
      exact holds.imp fun c k => noRows_holds
    · exact Keeps.refl fresh
    · intro c member g late
      obtain ⟨c, -, rfl⟩ := List.mem_map.mp member
      cases late
    · intro c member
      obtain ⟨c, inside, rfl⟩ := List.mem_map.mp member
      refine ⟨c, inside, fun g buffer => ?_⟩
      simp [noRows, GPUColumn.setUnique, newStringColumn, GPUColumn.buffers] at buffer
  · obtain ⟨output, memo, s', run, sound, keeps, own, linked⟩ :=
      columns_linked fresh given some' holds within owned other maintainUnique
    have kept : h ∉ memo.map Prod.fst := fun member => (own h member).2.1 rfl
    have each : ∀ c' ∈ output, ∃ c ∈ columns,
        Linked h memo maintainUnique rowIds.length c c' :=
      fun c' member => exists_of_forall₂ linked.flip member
    refine ⟨output, s', run, ?_⟩
    constructor
    · rw [List.forall₂_map_right_iff]
      have apart : ∀ c ∈ columns, ∀ g ∈ memo.map Prod.fst, g ∉ c.buffers :=
        fun c member g freed => (own g freed).2.2 c member
      clear other owned own run each
      induction linked generalizing contents with
      | nil =>
        cases holds
        exact .nil
      | cons head _ ih =>
        obtain ⟨k, ks, first, rest, rfl⟩ := List.forall₂_cons_left_iff.mp holds
        refine .cons (head.holds some' sound keeps given kept (apart _ List.mem_cons_self) first
          (within k List.mem_cons_self)) (ih rest (fun k' member => within k'
            (List.mem_cons_of_mem _ member)) fun c member => apart c
              (List.mem_cons_of_mem _ member))
    · exact keeps.mono fun g member => (own g member).1
    · intro c' member g late
      obtain ⟨c, -, q, rfl, from'⟩ := each c' member
      cases late
      cases ids : c.rowIds with
      | none =>
        rw [ids] at from'
        exact .inl from'
      | some p =>
        rw [ids] at from'
        exact .inr (sound.new _ from')
    · intro c' member
      obtain ⟨c, inside, q, rfl, -⟩ := each c' member
      exact ⟨c, inside, fun g buffer => buffer⟩

theorem columnsAt_run {relation : GPUIntermediateRelation} {contents : List Contents}
    (holds : List.Forall₂ (Holds s) relation contents) {places : List Nat}
    (within : ∀ i ∈ places, i < relation.length) :
    ∃ columns, (∀ s', columnsAt relation places s' = (.ok columns, s')) ∧
      (∀ c ∈ columns, c ∈ relation) ∧
      List.Forall₂ (Holds s) columns (places.filterMap (contents[·]?)) := by
  suffices ∃ columns, places.mapM (relation[·]?) = some columns ∧ (∀ c ∈ columns, c ∈ relation) ∧
      List.Forall₂ (Holds s) columns (places.filterMap (contents[·]?)) by
    obtain ⟨columns, found, members, all⟩ := this
    refine ⟨columns, fun s' => ?_, members, all⟩
    rw [columnsAt, found]
    rfl
  induction places with
  | nil => exact ⟨[], rfl, fun _ member => absurd member List.not_mem_nil, .nil⟩
  | cons i rest ih =>
    obtain ⟨columns, found, members, all⟩ := ih fun i member =>
      within i (List.mem_cons_of_mem _ member)
    have inside := within i List.mem_cons_self
    have inside' : i < contents.length := by rwa [← holds.length_eq]
    refine ⟨relation[i] :: columns, ?_, ?_, ?_⟩
    · rw [List.mapM_cons, List.getElem?_eq_getElem inside, found]
      rfl
    · intro c member
      rcases List.mem_cons.mp member with rfl | later
      · exact List.getElem_mem inside
      · exact members c later
    · rw [List.filterMap_cons, List.getElem?_eq_getElem inside']
      exact .cons (holds.get inside inside') all

end Calls

section Calls

variable {s : State} {rowIds : List Nat} {h : Handle}

/-- A call for some columns of a relation, which may share row ids in any way: each output column
has the selected rows of its own input column. -/
theorem handleMaterializeRowIDsLHS_run (fresh : s.Fresh)
    (given : s.at Content.asWords h = some rowIds) {relation : GPUIntermediateRelation}
    {contents : List Contents} (holds : List.Forall₂ (Holds s) relation contents)
    (rows : ∀ k ∈ contents, ∀ i ∈ rowIds, i < k.2.length) (owned : Owned s relation)
    (other : ∀ c ∈ relation, h ∉ c.rowIds) {places : List Nat}
    (within : ∀ i ∈ places, i < relation.length) (maintainUnique : Bool) : ∃ output s',
      handleMaterializeRowIDsLHS relation places rowIds.length (some h) maintainUnique s =
          (.ok output, s') ∧
        List.Forall₂ (Holds s') output
          ((places.filterMap (contents[·]?)).map (gathered rowIds)) ∧
        Keeps s s' fun g => ∃ c ∈ relation, g ∈ c.rowIds := by
  obtain ⟨columns, found, members, all⟩ := columnsAt_run holds within
  obtain ⟨output, s', run, selected⟩ := columns_run fresh given all (fun k member => by
      obtain ⟨i, -, here⟩ := List.mem_filterMap.mp member
      exact rows k (List.mem_of_getElem? here))
    ⟨fun c member => owned.known c (members c member), fun c member g late c' member' =>
      owned.apart c (members c member) g late c' (members c' member')⟩
    (fun c member => other c (members c member)) maintainUnique
  refine ⟨output, s', (Proc.bind_ok (found s)).trans run, selected.holds, ?_⟩
  exact selected.keeps.mono fun g ⟨c, member, late⟩ => ⟨c, members c member, late⟩

end Calls

section Values

open ColumnValues (Column Entry Reads Relation)
open FilterSelection (behind composed)

variable {s s' : State} {rowIds : List Nat} {memo : Memo} {h : Handle} {g g' : GPUColumn}
  {c : Column} {maintainUnique : Bool}

/-- The entries of a column behind row ids. -/
theorem shown_behind (data : c.entries ≠ none)
    (within : c.entries ≠ none → ∀ row ∈ rowIds, row < c.rowCount) :
    (behind c rowIds within).shown = rowIds.map fun i => c.shown.getD i ⟨[], false⟩ := by
  obtain ⟨es, entries⟩ := Option.ne_none_iff_exists'.mp data
  have inside := within data
  cases previous : c.rowIds with
  | none => simp [Column.shown, behind, composed, ColumnValues.gather, entries, previous]
  | some ids =>
    rw [Column.rowCount, previous] at inside
    simp only [Column.shown, behind, composed, ColumnValues.gather, entries, previous,
      List.map_map]
    refine List.map_congr_left fun i member => ?_
    have small : i < (ids.map fun j => es.getD j ⟨[], false⟩).length := by
      rw [List.length_map]
      exact inside i member
    rw [Function.comp_apply, List.getD_eq_getElem ids _ (inside i member),
      List.getD_eq_getElem _ _ small, List.getElem_map]

/-- In memory an output column is read as the column behind the row ids. -/
theorem Linked.reads (linked : Linked h memo maintainUnique rowIds.length g g')
    (some' : rowIds ≠ []) (sound : Sound s s' rowIds memo)
    (keeps : Keeps s s' (· ∈ memo.map Prod.fst)) (given : s.at Content.asWords h = some rowIds)
    (kept : h ∉ memo.map Prod.fst) (apart : ∀ p ∈ memo.map Prod.fst, p ∉ g.buffers)
    (reads : Reads s g c) (data : c.entries ≠ none)
    (within : c.entries ≠ none → ∀ row ∈ rowIds, row < c.rowCount) :
    Reads s' g' (behind c rowIds within) := by
  have length := ColumnValues.shown_length data
  have inside : ∀ i ∈ rowIds, i < c.shown.length := fun i member => by
    rw [length]
    exact within data i member
  have rows : g.rowCount ≠ 0 := by
    obtain ⟨i, rest, rfl⟩ := List.exists_cons_of_ne_nil some'
    have first := inside i List.mem_cons_self
    rw [reads.count]
    omega
  have holds : Holds s g (c.type, c.shown.map Entry.value) := ⟨reads.type, reads.values⟩
  obtain ⟨type, content⟩ := linked.holds some' sound keeps given kept apart holds
    (by simpa using inside)
  obtain ⟨base, previous, found, ids, -⟩ := (logical_iff rows).mp reads.values
  have count : previous.length = c.shown.length := by rw [idsOf_length ids, reads.count]
  have ids' := linked.ids sound keeps given kept ids (by rwa [count])
  have raw : previous.map base.bits = c.shown.map Entry.bits := by
    have both := (rawOf_eq found ids).symm.trans (reads.bits rows)
    exact Option.some.inj both
  obtain ⟨q, rfl, -⟩ := linked
  have shown := shown_behind data within
  constructor
  · exact type
  · rw [shown, List.length_map]
    rfl
  · rw [content, shown, gathered, List.map_map]
    refine congrArg some (List.map_congr_left fun i member => ?_)
    have small := inside i member
    rw [Function.comp_apply, List.getD_eq_getElem _ _ small,
      List.getD_eq_getElem _ _ (by rwa [List.length_map]), List.getElem_map]
  · intro _
    have found' : baseOf s' (lateColumn maintainUnique g (some q) rowIds.length) = some base :=
      baseOf_kept keeps ((baseOf_lateColumn (some q) rowIds.length).trans found)
        fun p member freed => absurd member (apart p freed)
    rw [rawOf_eq found' ids', shown, List.map_map, List.map_map]
    refine congrArg some (List.map_congr_left fun i member => ?_)
    have small := inside i member
    have small' : i < previous.length := by rwa [count]
    have piece := List.getElem_of_eq raw (by rwa [List.length_map])
    rw [List.getElem_map, List.getElem_map] at piece
    rw [Function.comp_apply, Function.comp_apply, List.getD_eq_getElem _ _ small,
      List.getD_eq_getElem _ _ small', piece]

/-- The call in memory refines the selection of entries. -/
theorem handleMaterializeRowIDs_reads (fresh : s.Fresh)
    (given : s.at Content.asWords h = some rowIds) {columns : GPUIntermediateRelation}
    {r : Relation} (reads : List.Forall₂ (Reads s) columns r.columns)
    (data : ∀ c ∈ r.columns, c.entries ≠ none) (owned : Owned s columns)
    (other : ∀ g ∈ columns, h ∉ g.rowIds) (within : ∀ row ∈ rowIds, row < r.rowCount)
    (maintainUnique : Bool) : ∃ output s',
      handleMaterializeRowIDs columns rowIds.length (some h) maintainUnique s = (.ok output, s') ∧
        List.Forall₂ (Reads s') output (FilterSelection.handleMaterializeRowIDs r rowIds within) ∧
        Keeps s s' fun g => ∃ c ∈ columns, g ∈ c.rowIds := by
  by_cases some' : rowIds = []
  · subst some'
    refine ⟨columns.map (noRows maintainUnique), s, noRows_run maintainUnique columns, ?_,
      Keeps.refl fresh⟩
    rw [FilterSelection.handleMaterializeRowIDs, if_pos List.length_nil,
      List.forall₂_map_left_iff, List.forall₂_map_right_iff]
    refine reads.imp fun g c reads => ?_
    exact ⟨reads.type, rfl, rfl, fun some => absurd rfl some⟩
  · have holds : List.Forall₂ (Holds s) columns
        (r.columns.map fun c => (c.type, c.shown.map Entry.value)) := by
      rw [List.forall₂_map_right_iff]
      exact reads.imp fun g c reads => ⟨reads.type, reads.values⟩
    obtain ⟨output, memo, s', run, sound, keeps, own, linked⟩ := columns_linked fresh given some'
      holds (fun k member i selected => by
        obtain ⟨c, inside, rfl⟩ := List.mem_map.mp member
        rw [List.length_map, ColumnValues.shown_count inside (data c inside)]
        exact within i selected) owned other maintainUnique
    refine ⟨output, s', run, ?_, keeps.mono fun p member => (own p member).1⟩
    have count : rowIds.length ≠ 0 := fun none => some' (List.length_eq_zero_iff.mp none)
    rw [FilterSelection.handleMaterializeRowIDs, if_neg count, List.forall₂_map_right_iff]
    have lengths : output.length = r.columns.attach.length := by
      rw [← linked.length_eq, reads.length_eq, List.length_attach]
    refine List.forall₂_iff_get.mpr ⟨lengths, fun i inside inside' => ?_⟩
    have before : i < columns.length := by rwa [linked.length_eq]
    have here : (r.columns.attach.get ⟨i, inside'⟩).1 = r.columns.get ⟨i, by
        rwa [List.length_attach] at inside'⟩ := congrArg Subtype.val (List.getElem_attach inside')
    have read : Reads s (columns.get ⟨i, before⟩) (r.columns.attach.get ⟨i, inside'⟩).1 := by
      rw [here]
      exact reads.get before _
    exact (linked.get before inside).reads some' sound keeps given
      (fun member => (own h member).2.1 rfl)
      (fun p freed => (own p freed).2.2 _ (List.get_mem columns ⟨i, before⟩)) read
      (data _ (r.columns.attach.get ⟨i, inside'⟩).2) _

end Values

section Plans

/-- Filters and joins over scans. What they select is given; a join materializes its keys, and
the build side is kept in the order of the hash table result. -/
inductive Plan
  | scan (columns : GPUIntermediateRelation)
  | filter (input : Plan) (rowIds : List Nat)
  | join (left right : Plan)
    (leftKeys rightKeys layout lhsOutputColumns rhsOutputColumns : List Nat)
    (uniqueBuildKeys uniqueProbeKeys : Bool) (pairs : List (Nat × Nat))

def materializeKeys (relation : GPUIntermediateRelation) (keys : List Nat) :
    Action GPUIntermediateRelation := do
  let columns ← columnsAt relation keys
  Proc.collect handleMaterializeExpression columns

/-- The locks a join takes on the columns of the build side. -/
def lockColumn (c : GPUColumn) : Action Unit := do
  lockAllocation c.dataWrapper.data
  lockAllocation c.rowIds
  if c.type = .varchar then lockAllocation c.dataWrapper.offset else pure ()

def Plan.run : Plan → Action GPUIntermediateRelation
  | .scan columns => pure columns
  | .filter input rowIds => do
    let inputRelation ← input.run
    let selected ← customCudaMalloc (.words rowIds)
    handleMaterializeRowIDs inputRelation rowIds.length (some selected) true
  | .join left right leftKeys rightKeys layout lhsOutputColumns rhsOutputColumns uniqueBuildKeys
      uniqueProbeKeys pairs => do
    let buildRelation ← right.run
    let _ ← materializeKeys buildRelation rightKeys
    let hashTableResult ← columnsAt buildRelation layout
    let inputRelation ← left.run
    let _ ← materializeKeys inputRelation leftKeys
    let rowIdsLeft ← customCudaMalloc (.words (pairs.map Prod.fst))
    let rowIdsRight ← customCudaMalloc (.words (pairs.map Prod.snd))
    let leftOutput ← handleMaterializeRowIDsLHS inputRelation lhsOutputColumns
      (pairs.map Prod.fst).length (some rowIdsLeft) uniqueBuildKeys
    Proc.each lockColumn hashTableResult
    let rightOutput ← handleMaterializeRowIDsRHS hashTableResult rhsOutputColumns
      (pairs.map Prod.snd).length (some rowIdsRight) uniqueProbeKeys
    pure (leftOutput ++ rightOutput)

/-- The plan, and its output without row ids. -/
def Plan.collect (plan : Plan) : Action GPUIntermediateRelation := do
  let relation ← plan.run
  Proc.collect handleMaterializeExpression relation

/-- The rows a plan stands for, from those of the scanned columns. -/
def Plan.contents (base : GPUColumn → Contents) : Plan → List Contents
  | .scan columns => columns.map base
  | .filter input rowIds => (input.contents base).map (gathered rowIds)
  | .join left right _ _ layout lhsOutputColumns rhsOutputColumns _ _ pairs =>
    (lhsOutputColumns.filterMap ((left.contents base)[·]?)).map (gathered (pairs.map Prod.fst)) ++
      (rhsOutputColumns.filterMap ((layout.filterMap ((right.contents base)[·]?))[·]?)).map
        (gathered (pairs.map Prod.snd))

def Plan.scanned : Plan → List GPUColumn
  | .scan columns => columns
  | .filter input _ => input.scanned
  | .join left right _ _ _ _ _ _ _ _ => left.scanned ++ right.scanned

/-- Contents that can be materialized: of a type there is a case for, and, for strings, with no more
rows than the kernels reach. -/
def Gatherable (k : Contents) : Prop :=
  materializable k.1 = true ∧ (k.1 = .varchar → k.2.length ≤ 2 ^ 32)

instance (k : Contents) : Decidable (Gatherable k) := inferInstanceAs (Decidable (_ ∧ _))

/-- The places a plan names are places of its relations. -/
def Plan.WellFormed (base : GPUColumn → Contents) : Plan → Prop
  | .scan _ => True
  | .filter input rowIds => input.WellFormed base ∧
    ∀ k ∈ input.contents base, ∀ i ∈ rowIds, i < k.2.length
  | .join left right leftKeys rightKeys layout lhsOutputColumns rhsOutputColumns _ _ pairs =>
    left.WellFormed base ∧ right.WellFormed base ∧
      (∀ i ∈ leftKeys, ∃ k, (left.contents base)[i]? = some k ∧ Gatherable k) ∧
      (∀ i ∈ rightKeys, ∃ k, (right.contents base)[i]? = some k ∧ Gatherable k) ∧
      (∀ i ∈ layout, i < (right.contents base).length) ∧
      (∀ i ∈ lhsOutputColumns, i < (left.contents base).length) ∧
      (∀ i ∈ rhsOutputColumns, i < layout.length) ∧
      (∀ k ∈ left.contents base, ∀ p ∈ pairs, p.1 < k.2.length) ∧
      ∀ k ∈ right.contents base, ∀ p ∈ pairs, p.2 < k.2.length

end Plans

section Frames

variable {s s' s'' : State} {F G : Handle → Prop}

/-- A buffer that no free of a query takes away: cached, locked or kept for RMM. -/
structure Lasting (s : State) (h : Handle) : Prop where
  live : s.Live h
  known : s.Known h
  kept : h ∉ s.allocationTable

/-- Freeing what is not in the allocation table frees nothing. -/
theorem keeps_all (keeps : Keeps s s' F) (unallocated : ∀ h, F h → h ∉ s.allocationTable) :
    Keeps s s' G where
  contents := fun h live _ => keeps.contents h live (unallocated h)
  known := fun h known _ => keeps.known h known (unallocated h)
  table := keeps.table
  next := keeps.next
  old := keeps.old
  fresh := keeps.fresh

theorem new_unallocated (fresh : s.Fresh) {h : Handle} (new : s.New h) :
    h ∉ s.allocationTable :=
  fun allocated => fresh.unknown h new (known_of_allocated allocated)

theorem new_of_le (keeps : Keeps s s' F) {h : Handle} (new : s'.New h) : s.New h := by
  obtain ⟨n, le, rfl⟩ := new
  exact ⟨n, Nat.le_trans keeps.next le, rfl⟩

theorem Lasting.kept_by {h : Handle} (lasting : Lasting s h) (keeps : Keeps s s' F) :
    Lasting s' h where
  live := keeps.live lasting.live fun _ => lasting.kept
  known := keeps.known h lasting.known fun _ => lasting.kept
  kept := fun allocated => (keeps.table h allocated).elim lasting.kept
    (keeps.old.not_new lasting.live)

theorem Holds.kept {c : GPUColumn} {contents : Contents} (holds : Holds s c contents)
    (keeps : Keeps s s' F)
    (kept : ∀ h ∈ c.buffers ++ c.rowIds.toList, F h → h ∉ s.allocationTable) :
    Holds s' c contents :=
  ⟨holds.1, logical_kept kept keeps holds.2⟩

theorem lockAllocation_run (fresh : s.Fresh) (h : Option Handle) :
    ∃ s', lockAllocation h s = (.ok (), s') ∧ Keeps s s' F := by
  cases h with
  | none => exact ⟨s, rfl, Keeps.refl fresh⟩
  | some h => exact ⟨s.lock h, rfl, keeps_lock fresh h⟩

theorem lockColumn_run (fresh : s.Fresh) (c : GPUColumn) :
    ∃ s', lockColumn c s = (.ok (), s') ∧ Keeps s s' F := by
  obtain ⟨s₁, run₁, keeps₁⟩ := lockAllocation_run (F := F) fresh c.dataWrapper.data
  obtain ⟨s₂, run₂, keeps₂⟩ := lockAllocation_run (F := F) keeps₁.fresh c.rowIds
  have both := (keeps₁.trans keeps₂).mono (G := F) (by simp)
  by_cases string : c.type = .varchar
  · obtain ⟨s₃, run₃, keeps₃⟩ := lockAllocation_run (F := F) keeps₂.fresh c.dataWrapper.offset
    refine ⟨s₃, ?_, (both.trans keeps₃).mono (by simp)⟩
    rw [lockColumn, Proc.bind_ok run₁, Proc.bind_ok run₂, if_pos string, run₃]
  · refine ⟨s₂, ?_, both⟩
    rw [lockColumn, Proc.bind_ok run₁, Proc.bind_ok run₂, if_neg string]
    rfl

theorem lockColumns_run (fresh : s.Fresh) (columns : List GPUColumn) :
    ∃ s', Proc.each lockColumn columns s = (.ok (), s') ∧ Keeps s s' F := by
  induction columns generalizing s with
  | nil => exact ⟨s, rfl, Keeps.refl fresh⟩
  | cons c rest ih =>
    obtain ⟨s₁, run₁, keeps₁⟩ := lockColumn_run (F := F) fresh c
    obtain ⟨s₂, run₂, keeps₂⟩ := ih keeps₁.fresh
    exact ⟨s₂, (Proc.bind_ok run₁).trans run₂, (keeps₁.trans keeps₂).mono (by simp)⟩

/-- Columns over lasting buffers are materialized one after another. -/
theorem collect_run {columns : List GPUColumn} {contents : List Contents} (fresh : s.Fresh)
    (holds : List.Forall₂ (Holds s) columns contents)
    (types : ∀ k ∈ contents, Gatherable k)
    (lasting : ∀ c ∈ columns, ∀ h ∈ c.buffers, Lasting s h) : ∃ output s',
      Proc.collect handleMaterializeExpression columns s = (.ok output, s') ∧
        (Keeps s s' fun _ => False) ∧ List.Forall₂ (fun c k => c.rowIds = none ∧
          c.columnLength = k.2.length ∧ Holds s' c k) output contents := by
  induction columns generalizing s contents with
  | nil =>
    cases holds
    exact ⟨[], s, rfl, Keeps.refl fresh, .nil⟩
  | cons c rest ih =>
    obtain ⟨k, ks, head, tail, rfl⟩ := List.forall₂_cons_left_iff.mp holds
    have own := lasting c List.mem_cons_self
    obtain ⟨type, near⟩ := types k List.mem_cons_self
    have reached : Materialize.Reached c := by
      intro string late
      have count := logical_length head.2
      obtain ⟨r, here⟩ := Option.ne_none_iff_exists'.mp late
      rw [GPUColumn.rowCount, here] at count
      have few := near (head.1.symm.trans string)
      simp only at count
      omega
    obtain ⟨c', s₁, run₁, made⟩ := handleMaterializeExpression_run fresh
      (fun h consumed => (own h consumed.2.2).known) (by rwa [head.1]) reached head.2
    have keeps₁ : Keeps s s₁ fun _ => False :=
      keeps_all made.keeps fun h consumed => (own h consumed.2.2).kept
    obtain ⟨output, s₂, run₂, keeps₂, all⟩ := ih keeps₁.fresh
      (tail.imp fun _ _ holds => holds.kept keeps₁ (by simp))
      (fun k member => types k (List.mem_cons_of_mem _ member))
      fun c member h buffer => (lasting c (List.mem_cons_of_mem _ member) h buffer).kept_by keeps₁
    have here : Holds s₁ c' k := ⟨made.type.trans head.1, made.content⟩
    refine ⟨c' :: output, s₂, ?_, (keeps₁.trans keeps₂).mono (by simp),
      .cons ⟨made.rowIds, made.columnLength, here.kept keeps₂ (by simp)⟩ all⟩
    exact (Proc.bind_ok run₁).trans (Proc.bind_ok run₂)

end Frames

section Runs

variable {s s₁ s₂ : State} {lasting : Handle → Prop} {columns : List GPUColumn}
  {contents : List Contents} {h : Handle} {rowIds : List Nat}

/-- A relation that was made between two states: its data lasts, its row ids are new. -/
structure Made (lasting : Handle → Prop) (s s' : State) (columns : List GPUColumn)
    (contents : List Contents) : Prop where
  keeps : Keeps s s' fun _ => False
  holds : List.Forall₂ (Holds s') columns contents
  buffers : ∀ c ∈ columns, ∀ h ∈ c.buffers, lasting h
  rowIds : ∀ c ∈ columns, ∀ h ∈ c.rowIds, s.New h ∧ s'.Known h

/-- Some columns of a relation. -/
theorem Made.pick (made : Made lasting s s₁ columns contents) {places : List Nat}
    (within : ∀ i ∈ places, i < contents.length) :
    ∃ picked, (∀ s, columnsAt columns places s = (.ok picked, s)) ∧ (∀ c ∈ picked, c ∈ columns) ∧
      Made lasting s s₁ picked (places.filterMap (contents[·]?)) := by
  obtain ⟨picked, found, members, all⟩ := columnsAt_run made.holds (by rwa [made.holds.length_eq])
  exact ⟨picked, found, members, made.keeps, all,
    fun c member => made.buffers c (members c member),
    fun c member => made.rowIds c (members c member)⟩

variable (lasts : ∀ h, lasting h → Lasting s h)
include lasts

theorem Made.not_buffer (made : Made lasting s s₁ columns contents) {c : GPUColumn}
    (member : c ∈ columns) {g : Handle} (new : s.New g) : g ∉ c.buffers :=
  fun buffer => made.keeps.old.not_new (lasts g (made.buffers c member g buffer)).live new

/-- What a relation was made of remains, whatever new row ids of others are freed. -/
theorem Made.later {s' : State} {F : Handle → Prop} (made : Made lasting s' s₁ columns contents)
    (before : Keeps s s' fun _ => False) (keeps : Keeps s₁ s₂ F)
    (freed : ∀ g, F g → s.New g ∧ ∀ c ∈ columns, g ∉ c.rowIds) :
    Made lasting s s₂ columns contents where
  keeps := by
    refine keeps_all ((before.trans made.keeps).trans keeps) fun g => ?_
    rintro ((none | none) | member)
    · exact none.elim
    · exact none.elim
    · exact new_unallocated before.old (freed g member).1
  holds := by
    refine List.forall₂_iff_get.mpr ⟨made.holds.length_eq, fun i inside inside' => ?_⟩
    refine (made.holds.get inside inside').kept keeps fun g member own => ?_
    have here : columns.get ⟨i, inside⟩ ∈ columns := List.get_mem columns ⟨i, inside⟩
    rcases List.mem_append.mp member with buffer | late
    · have live := (lasts g (made.buffers _ here g buffer)).live
      exact absurd (freed g own).1 (before.old.not_new live)
    · exact absurd (by simpa using late) ((freed g own).2 _ here)
  buffers := made.buffers
  rowIds := fun c member g late => by
    obtain ⟨new, known⟩ := made.rowIds c member g late
    exact ⟨new_of_le before new,
      keeps.known g known fun own => absurd late ((freed g own).2 c member)⟩

/-- A call for columns of a relation made before, with row ids that have been written since. -/
theorem Made.select (made : Made lasting s s₁ columns contents)
    (keeps : Keeps s₁ s₂ fun _ => False) (given : s₂.at Content.asWords h = some rowIds)
    (new : s₁.New h) (known : s₂.Known h) (rows : ∀ k ∈ contents, ∀ i ∈ rowIds, i < k.2.length)
    (maintainUnique : Bool) : ∃ output s₃,
      materializeColumns maintainUnique rowIds.length (some h) columns [] s₂ = (.ok output, s₃) ∧
        Made lasting s s₃ output (contents.map (gathered rowIds)) ∧
        Keeps s₂ s₃ fun g => ∃ c ∈ columns, g ∈ c.rowIds := by
  have now := made.later lasts (Keeps.refl made.keeps.old) keeps (fun g none => none.elim)
  have other : ∀ c ∈ columns, h ∉ c.rowIds := fun c member late =>
    made.keeps.fresh.unknown h new (made.rowIds c member h late).2
  obtain ⟨output, s₃, run, selected⟩ := columns_run keeps.fresh given now.holds rows
    ⟨fun c member g late => (now.rowIds c member g late).2, fun c member g late c' member' =>
      now.not_buffer lasts member' (now.rowIds c member g late).1⟩ other maintainUnique
  refine ⟨output, s₃, run, ?_, selected.keeps⟩
  constructor
  · refine keeps_all (now.keeps.trans selected.keeps) fun g => ?_
    rintro (none | ⟨c, member, late⟩)
    · exact none.elim
    · exact new_unallocated now.keeps.old (now.rowIds c member g late).1
  · exact selected.holds
  · intro c' member g buffer
    obtain ⟨c, inside, same⟩ := selected.buffers c' member
    exact made.buffers c inside g (same g buffer)
  · intro c' member g late
    rcases selected.rowIds c' member g late with rfl | ⟨new', known'⟩
    · refine ⟨new_of_le made.keeps new, selected.keeps.known _ known ?_⟩
      rintro ⟨c, inside, own⟩
      exact absurd own (other c inside)
    · exact ⟨new_of_le now.keeps new', known'⟩

/-- The keys of a join are materialized, and the relation stays. -/
theorem Made.keys (made : Made lasting s s₁ columns contents) {keys : List Nat}
    (types : ∀ i ∈ keys, ∃ k, contents[i]? = some k ∧ Gatherable k) :
    ∃ output s₂, materializeKeys columns keys s₁ = (.ok output, s₂) ∧
      Keeps s₁ s₂ fun _ => False := by
  obtain ⟨picked, found, members, all⟩ := made.pick (fun i (member : i ∈ keys) => by
    obtain ⟨k, here, -⟩ := types i member
    exact (List.getElem?_eq_some_iff.mp here).1)
  obtain ⟨output, s₂, run, keeps, -⟩ := collect_run made.keeps.fresh all.holds (fun k member => by
      obtain ⟨i, inside, here⟩ := List.mem_filterMap.mp member
      obtain ⟨k', here', type⟩ := types i inside
      cases here.symm.trans here'
      exact type)
    fun c member g buffer => (lasts g (all.buffers c member g buffer)).kept_by made.keeps
  exact ⟨output, s₂, (Proc.bind_ok (found s₁)).trans run, keeps⟩

end Runs

section Trees

variable {s s' : State} {lasting : Handle → Prop} {base : GPUColumn → Contents}

/-- Columns as a scan leaves them: without row ids, over lasting buffers. -/
structure Scanned (lasting : Handle → Prop) (base : GPUColumn → Contents) (s : State)
    (columns : List GPUColumn) : Prop where
  direct : ∀ c ∈ columns, c.rowIds = none
  holds : ∀ c ∈ columns, Holds s c (base c)
  buffers : ∀ c ∈ columns, ∀ h ∈ c.buffers, lasting h

theorem Scanned.mono {columns columns' : List GPUColumn} (scanned : Scanned lasting base s columns)
    (sub : ∀ c ∈ columns', c ∈ columns) : Scanned lasting base s columns' :=
  ⟨fun c member => scanned.direct c (sub c member), fun c member => scanned.holds c (sub c member),
    fun c member => scanned.buffers c (sub c member)⟩

theorem Scanned.later {columns : List GPUColumn} (scanned : Scanned lasting base s columns)
    (keeps : Keeps s s' fun _ => False) : Scanned lasting base s' columns :=
  ⟨scanned.direct, fun c member => (scanned.holds c member).kept keeps (by simp),
    scanned.buffers⟩

/-- The left and the right columns of a join. -/
theorem Made.append {s₁ : State} {left right : List GPUColumn} {contents contents' : List Contents}
    (first : Made lasting s s₁ left contents) (second : Made lasting s s₁ right contents') :
    Made lasting s s₁ (left ++ right) (contents ++ contents') where
  keeps := first.keeps
  holds := List.rel_append first.holds second.holds
  buffers := fun c member => (List.mem_append.mp member).elim (first.buffers c) (second.buffers c)
  rowIds := fun c member => (List.mem_append.mp member).elim (first.rowIds c) (second.rowIds c)

/-- The two calls of a join, for relations made one after the other. -/
theorem join_run {s₁ s₂ s₃ s₄ : State} {input hash : List GPUColumn}
    {leftContents rightContents : List Contents} (lasts : ∀ h, lasting h → Lasting s h)
    (build : Made lasting s s₁ hash rightContents) (between : Keeps s₁ s₂ fun _ => False)
    (probe : Made lasting s₂ s₃ input leftContents) (after : Keeps s₃ s₄ fun _ => False)
    {lhs rhs : List Nat} (within : ∀ i ∈ lhs, i < leftContents.length)
    (within' : ∀ i ∈ rhs, i < rightContents.length) {pairs : List (Nat × Nat)}
    (rows : ∀ k ∈ leftContents, ∀ p ∈ pairs, p.1 < k.2.length)
    (rows' : ∀ k ∈ rightContents, ∀ p ∈ pairs, p.2 < k.2.length) (uniqueBuild uniqueProbe : Bool) :
    ∃ output s', (do
        let rowIdsLeft ← customCudaMalloc (.words (pairs.map Prod.fst))
        let rowIdsRight ← customCudaMalloc (.words (pairs.map Prod.snd))
        let leftOutput ← handleMaterializeRowIDsLHS input lhs (pairs.map Prod.fst).length
          (some rowIdsLeft) uniqueBuild
        Proc.each lockColumn hash
        let rightOutput ← handleMaterializeRowIDsRHS hash rhs (pairs.map Prod.snd).length
          (some rowIdsRight) uniqueProbe
        pure (leftOutput ++ rightOutput)) s₄ = (.ok output, s') ∧
      Made lasting s s' output
        ((lhs.filterMap (leftContents[·]?)).map (gathered (pairs.map Prod.fst)) ++
          (rhs.filterMap (rightContents[·]?)).map (gathered (pairs.map Prod.snd))) := by
  let idsLeft := Content.words (pairs.map Prod.fst)
  let idsRight := Content.words (pairs.map Prod.snd)
  let s₅ := s₄.allocate idsLeft
  let s₆ := s₅.allocate idsRight
  have keeps₁₃ : Keeps s₁ s₃ fun _ => False := (between.trans probe.keeps).mono (by simp)
  have keeps₄₅ : Keeps s₄ s₅ fun _ => False := keeps_allocate after.fresh idsLeft
  have keeps₅₆ : Keeps s₅ s₆ fun _ => False := keeps_allocate keeps₄₅.fresh idsRight
  have keeps₃₆ : Keeps s₃ s₆ fun _ => False :=
    ((after.trans keeps₄₅).trans keeps₅₆).mono (by simp)
  have before : Keeps s s₂ fun _ => False := (build.keeps.trans between).mono (by simp)
  have lasts₂ : ∀ h, lasting h → Lasting s₂ h := fun h last => (lasts h last).kept_by before
  have newLeft : s₃.New (.processing s₄.next) := new_of_le after (new_next s₄)
  have newRight : s₃.New (.processing s₅.next) :=
    new_of_le after (new_of_le keeps₄₅ (new_next s₅))
  obtain ⟨leftColumns, foundLeft, -, left⟩ := probe.pick within
  obtain ⟨rightColumns, foundRight, -, right⟩ := build.pick within'
  have picked {contents : List Contents} {places : List Nat} {k : Contents}
      (member : k ∈ places.filterMap (contents[·]?)) : k ∈ contents := by
    obtain ⟨i, -, here⟩ := List.mem_filterMap.mp member
    exact List.mem_of_getElem? here
  obtain ⟨leftOutput, s₇, runLeft, madeLeft, keeps₆₇⟩ := left.select lasts₂ keeps₃₆
    (keeps₅₆.at (by simp) (at_allocate idsLeft Content.asWords)) newLeft
    (keeps₅₆.known _ (known_of_allocated List.mem_cons_self) (by simp))
    (fun k member i selected => by
      obtain ⟨p, inside, rfl⟩ := List.mem_map.mp selected
      exact rows k (picked member) p inside) uniqueBuild
  obtain ⟨s₈, locked, keeps₇₈⟩ := lockColumns_run (F := fun _ => False) keeps₆₇.fresh hash
  have own {g : Handle} (freed : ∃ c ∈ leftColumns, g ∈ c.rowIds) : s₂.New g ∧ s₃.Known g := by
    obtain ⟨c, member, late⟩ := freed
    exact left.rowIds c member g late
  have keeps₁₈ : Keeps s₁ s₈ fun _ => False := by
    refine keeps_all (((keeps₁₃.trans keeps₃₆).trans keeps₆₇).trans keeps₇₈) fun g => ?_
    rintro (((none | none) | freed) | none)
    · exact none.elim
    · exact none.elim
    · exact new_unallocated between.old (new_of_le between (own freed).1)
    · exact none.elim
  have remains (g : Handle) (new : s₃.New g) : ¬ ∃ c ∈ leftColumns, g ∈ c.rowIds :=
    fun freed => probe.keeps.fresh.unknown g new (own freed).2
  have given : s₈.at Content.asWords (.processing s₅.next) = some (pairs.map Prod.snd) :=
    keeps₇₈.at (by simp) (keeps₆₇.at (fun freed => absurd freed (remains _ newRight))
      (at_allocate idsRight Content.asWords))
  have known : s₈.Known (.processing s₅.next) :=
    keeps₇₈.known _ (keeps₆₇.known _ (known_of_allocated List.mem_cons_self)
      fun freed => absurd freed (remains _ newRight)) (by simp)
  obtain ⟨rightOutput, s₉, runRight, madeRight, keeps₈₉⟩ := right.select lasts keeps₁₈ given
    (new_of_le keeps₁₃ newRight) known (fun k member i selected => by
      obtain ⟨p, inside, rfl⟩ := List.mem_map.mp selected
      exact rows' k (picked member) p inside) uniqueProbe
  have leftLater : Made lasting s s₉ leftOutput _ := madeLeft.later lasts before
    (keeps₇₈.trans keeps₈₉) fun g => by
      rintro (none | ⟨c, member, late⟩)
      · exact none.elim
      · obtain ⟨new, known⟩ := right.rowIds c member g late
        refine ⟨new, fun c' member' late' => ?_⟩
        exact before.fresh.unknown g (madeLeft.rowIds c' member' g late').1
          (between.known g known (by simp))
  have calledLeft : handleMaterializeRowIDsLHS input lhs (pairs.map Prod.fst).length
      (some (.processing s₄.next)) uniqueBuild s₆ = (.ok leftOutput, s₇) :=
    (Proc.bind_ok (foundLeft s₆)).trans runLeft
  have calledRight : handleMaterializeRowIDsRHS hash rhs (pairs.map Prod.snd).length
      (some (.processing s₅.next)) uniqueProbe s₈ = (.ok rightOutput, s₉) :=
    (Proc.bind_ok (foundRight s₈)).trans runRight
  refine ⟨leftOutput ++ rightOutput, s₉, ?_, leftLater.append madeRight⟩
  rw [Proc.bind_ok (customCudaMalloc_run idsLeft), Proc.bind_ok (customCudaMalloc_run idsRight),
    Proc.bind_ok calledLeft, Proc.bind_ok locked, Proc.bind_ok calledRight]
  rfl

/-- A plan makes the rows it stands for, by induction on the plan. -/
theorem Plan.run_made (plan : Plan) (lasts : ∀ h, lasting h → Lasting s h) (fresh : s.Fresh)
    (scanned : Scanned lasting base s plan.scanned) (wellFormed : plan.WellFormed base) :
    ∃ columns s', plan.run s = (.ok columns, s') ∧
      Made lasting s s' columns (plan.contents base) := by
  induction plan generalizing s with
  | scan columns =>
    refine ⟨columns, s, rfl, Keeps.refl fresh, ?_, scanned.buffers, fun c member h late => ?_⟩
    · rw [Plan.contents, List.forall₂_map_right_iff]
      exact List.forall₂_same.mpr scanned.holds
    · rw [scanned.direct c member] at late
      cases late
  | filter input rowIds ih =>
    obtain ⟨columns, s₁, run, made⟩ := ih lasts fresh scanned wellFormed.1
    let content := Content.words rowIds
    have keeps : Keeps s₁ (s₁.allocate content) fun _ => False :=
      keeps_allocate made.keeps.fresh content
    obtain ⟨output, s₂, run', made', -⟩ := made.select lasts keeps
      (at_allocate content Content.asWords) (new_next s₁)
      (known_of_allocated List.mem_cons_self) wellFormed.2 true
    refine ⟨output, s₂, ?_, made'⟩
    rw [Plan.run, Proc.bind_ok run, Proc.bind_ok (customCudaMalloc_run content)]
    exact run'
  | join left right leftKeys rightKeys layout lhs rhs uniqueBuild uniqueProbe pairs ihLeft
      ihRight =>
    obtain ⟨wellLeft, wellRight, typesLeft, typesRight, inLayout, inLeft, inRight, rows, rows'⟩ :=
      wellFormed
    obtain ⟨buildRelation, s₁, run₁, build⟩ :=
      ihRight lasts fresh (scanned.mono fun c => List.mem_append_right _) wellRight
    obtain ⟨_, s₂, run₂, keys₂⟩ := build.keys lasts typesRight
    obtain ⟨hash, foundHash, -, hashTable⟩ := build.pick inLayout
    have before : Keeps s s₂ fun _ => False := (build.keeps.trans keys₂).mono (by simp)
    have lasts₂ : ∀ h, lasting h → Lasting s₂ h := fun h last => (lasts h last).kept_by before
    obtain ⟨inputRelation, s₃, run₃, probe⟩ := ihLeft lasts₂ before.fresh
      ((scanned.mono fun c => List.mem_append_left _).later before) wellLeft
    obtain ⟨_, s₄, run₄, keys₄⟩ := probe.keys lasts₂ typesLeft
    have some' : ∀ i ∈ layout, (right.contents base)[i]?.isSome := fun i member => by
      simpa using inLayout i member
    have inRight' : ∀ i ∈ rhs, i < (layout.filterMap ((right.contents base)[·]?)).length := by
      rw [List.length_filterMap_eq_countP, List.countP_eq_length.mpr some']
      exact inRight
    obtain ⟨output, s₅, run₅, made⟩ := join_run lasts hashTable keys₂ probe keys₄ inLeft inRight'
      rows (fun k member => by
        obtain ⟨i, -, here⟩ := List.mem_filterMap.mp member
        exact rows' k (List.mem_of_getElem? here)) uniqueBuild uniqueProbe
    refine ⟨output, s₅, ?_, made⟩
    rw [Plan.run, Proc.bind_ok run₁, Proc.bind_ok run₂, Proc.bind_ok (foundHash s₂),
      Proc.bind_ok run₃, Proc.bind_ok run₄]
    exact run₅

/-- What a plan returns, materialized, is the rows it stands for. -/
theorem Plan.collect_rows (plan : Plan) (lasts : ∀ h, lasting h → Lasting s h) (fresh : s.Fresh)
    (scanned : Scanned lasting base s plan.scanned) (wellFormed : plan.WellFormed base)
    (types : ∀ k ∈ plan.contents base, Gatherable k) :
    ∃ output s', plan.collect s = (.ok output, s') ∧ List.Forall₂ (fun c k => c.rowIds = none ∧
      c.columnLength = k.2.length ∧ Holds s' c k) output (plan.contents base) := by
  obtain ⟨columns, s₁, run, made⟩ := plan.run_made lasts fresh scanned wellFormed
  obtain ⟨output, s₂, run', -, all⟩ := collect_run made.keeps.fresh made.holds types
    fun c member h buffer => (lasts h (made.buffers c member h buffer)).kept_by made.keeps
  exact ⟨output, s₂, (Proc.bind_ok run).trans run', all⟩

end Trees

section Witness

open ColumnValues (Column Reads Relation)

/-- The integers 1, 2 and 3, cached; two vectors of row ids, and one that selects from them. -/
def sampleState : State where
  contents
    | .caching 0 => some (.bytes [1, 0, 0, 0, 2, 0, 0, 0, 3, 0, 0, 0])
    | .processing 0 => some (.words [2, 0, 1])
    | .processing 1 => some (.words [1, 1, 0])
    | .processing 2 => some (.words [2, 0])
    | _ => none
  allocationTable := [.processing 0, .processing 1, .processing 2]
  lockedAllocationTable := []
  rmmStoredBuffers := []
  next := 3

def integerColumn (rowIds : Option Handle) (count : Nat) : GPUColumn :=
  lateColumn true (newColumn 3 .int32 (some (.caching 0)) none) rowIds count

theorem integerColumn_buffers (rowIds : Option Handle) (count : Nat) :
    (integerColumn rowIds count).buffers = [.caching 0] := rfl

theorem integerColumn_rowIds (rowIds : Option Handle) (count : Nat) :
    (integerColumn rowIds count).rowIds = rowIds := rfl

/-- The first and the third column share their row ids. -/
def sampleRelation : GPUIntermediateRelation :=
  [integerColumn (some (.processing 0)) 3, integerColumn (some (.processing 1)) 3,
    integerColumn (some (.processing 0)) 3, integerColumn none 0]

def integer (n : UInt8) : Option Bytes := some [n, 0, 0, 0]

def sampleContents : List Contents :=
  [(.int32, [integer 3, integer 1, integer 2]), (.int32, [integer 2, integer 2, integer 1]),
    (.int32, [integer 3, integer 1, integer 2]), (.int32, [integer 1, integer 2, integer 3])]

theorem sampleState_fresh : sampleState.Fresh where
  empty := by
    rintro h ⟨n, le, rfl⟩
    match n, le with
    | n + 3, _ => rfl
  unknown := by
    rintro h ⟨n, le, rfl⟩ known
    match n, le with
    | n + 3, _ => simp [State.Known, sampleState] at known
  apart := fun n allocated => by simp [sampleState] at allocated

theorem sample_holds : List.Forall₂ (Holds sampleState) sampleRelation sampleContents :=
  .cons ⟨rfl, by decide⟩ (.cons ⟨rfl, by decide⟩ (.cons ⟨rfl, by decide⟩
    (.cons ⟨rfl, by decide⟩ .nil)))

theorem sample_owned : Owned sampleState sampleRelation := by
  constructor
  · simp [sampleRelation, integerColumn, lateColumn, State.Known, sampleState]
  · simp [sampleRelation, integerColumn_buffers, integerColumn_rowIds]

theorem sample_selected : ∃ output s',
    handleMaterializeRowIDsLHS sampleRelation [0, 1, 2, 3] 2 (some (.processing 2)) true
        sampleState = (.ok output, s') ∧
      List.Forall₂ (Holds s') output [(.int32, [integer 2, integer 3]),
        (.int32, [integer 1, integer 2]), (.int32, [integer 2, integer 3]),
        (.int32, [integer 3, integer 1])] := by
  have given : sampleState.at Content.asWords (.processing 2) = some [2, 0] := rfl
  have within : ∀ i ∈ [0, 1, 2, 3], i < sampleRelation.length := by decide
  obtain ⟨output, s', run, holds, -⟩ := handleMaterializeRowIDsLHS_run sampleState_fresh given
    sample_holds (by decide) sample_owned (by simp [sampleRelation, integerColumn_rowIds]) within
    true
  exact ⟨output, s', run, holds⟩

/-- The columns by their entries. -/
def integerEntries (rowIds : Option (List Nat))
    (inside : ∀ ids, rowIds = some ids → ∀ i ∈ ids, i < 3) : Column where
  type := .int32
  entries := some [⟨[1, 0, 0, 0], true⟩, ⟨[2, 0, 0, 0], true⟩, ⟨[3, 0, 0, 0], true⟩]
  columnLength := 3
  rowIds := rowIds
  numBytes := 12
  isUnique := false
  long := by rintro _ ⟨⟩; rfl
  inside := by rintro _ ⟨⟩; exact inside

def firstEntries : Column := integerEntries (some [2, 0, 1]) (by rintro _ ⟨⟩; decide)

def secondEntries : Column := integerEntries (some [1, 1, 0]) (by rintro _ ⟨⟩; decide)

def sampleEntries : Relation where
  columns := [firstEntries, secondEntries, firstEntries, integerEntries none (by rintro _ ⟨⟩)]
  rowCount := 3
  some := List.cons_ne_nil _ _
  even := by simp [firstEntries, secondEntries, integerEntries, Column.rowCount]
  empty := by simp [firstEntries, secondEntries, integerEntries]
  measured := by simp [firstEntries, secondEntries, integerEntries, Column.Measured]

theorem sample_reads : ∃ output s',
    handleMaterializeRowIDs sampleRelation 2 (some (.processing 2)) true sampleState =
        (.ok output, s') ∧
      List.Forall₂ (Reads s') output
        (FilterSelection.handleMaterializeRowIDs sampleEntries [2, 0] (by decide)) := by
  have reads : List.Forall₂ (Reads sampleState) sampleRelation sampleEntries.columns :=
    .cons ⟨rfl, rfl, by decide, fun _ => by decide⟩
      (.cons ⟨rfl, rfl, by decide, fun _ => by decide⟩
        (.cons ⟨rfl, rfl, by decide, fun _ => by decide⟩
          (.cons ⟨rfl, rfl, by decide, fun _ => by decide⟩ .nil)))
  have given : sampleState.at Content.asWords (.processing 2) = some [2, 0] := rfl
  obtain ⟨output, s', run, done, -⟩ := handleMaterializeRowIDs_reads sampleState_fresh given reads
    (by simp [sampleEntries, firstEntries, secondEntries, integerEntries]) sample_owned
    (by simp [sampleRelation, integerColumn_rowIds]) (by decide) true
  exact ⟨output, s', run, done⟩

/-- A join of the column, filtered, with itself. -/
def samplePlan : Plan :=
  .join (.filter (.scan [integerColumn none 0, integerColumn none 0]) [2, 0])
    (.scan [integerColumn none 0]) [0] [0] [0, 0] [1, 0] [1] true false [(1, 0), (0, 2), (0, 0)]

def integers (_ : GPUColumn) : Contents := (.int32, [integer 1, integer 2, integer 3])

theorem sample_collected : ∃ output s', samplePlan.collect sampleState = (.ok output, s') ∧
    List.Forall₂ (fun c k => c.rowIds = none ∧ c.columnLength = k.2.length ∧ Holds s' c k) output
      [(.int32, [integer 1, integer 3, integer 3]), (.int32, [integer 1, integer 3, integer 3]),
        (.int32, [integer 1, integer 3, integer 1])] := by
  have only : ∀ c ∈ samplePlan.scanned, c = integerColumn none 0 := by
    simp [samplePlan, Plan.scanned]
  have lasts : ∀ h, h = .caching 0 → Lasting sampleState h := by
    rintro h rfl
    exact ⟨fun gone => (Option.some_ne_none _ gone).elim, trivial, by decide⟩
  have scanned : Scanned (· = .caching 0) integers sampleState samplePlan.scanned := by
    constructor
    · intro c member
      rw [only c member]
      rfl
    · intro c member
      rw [only c member]
      exact ⟨rfl, by decide⟩
    · intro c member h buffer
      rw [only c member, integerColumn_buffers] at buffer
      exact List.mem_singleton.mp buffer
  have wellFormed : samplePlan.WellFormed integers := by
    have key {contents : List Contents} (first : contents[0]?.map Prod.fst = some .int32) :
        ∀ i ∈ [0], ∃ k, contents[i]? = some k ∧ Gatherable k := by
      obtain ⟨k, here, type⟩ := Option.map_eq_some_iff.mp first
      intro i member
      rw [List.mem_singleton.mp member]
      exact ⟨k, here, by rw [type]; rfl, fun string => by rw [type] at string; cases string⟩
    exact ⟨⟨trivial, by decide⟩, trivial, key rfl, key rfl, by decide, by decide, by decide,
      by decide, by decide⟩
  exact samplePlan.collect_rows lasts sampleState_fresh scanned wellFormed (by decide)

end Witness

end RowIdComposition
