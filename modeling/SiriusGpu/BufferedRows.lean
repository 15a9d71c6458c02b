import SiriusGpu.BufferedRelations

/-!
# Rows of buffered relations

What is later read from a buffered relation is the relation that was sunk last, read
the way its operator has copied it. It holds the rows of all the sinks exactly when
that way reads them all and no buffer it reads was freed on the way.
-/

namespace BufferedRows

open ThrowingState GpuMemory GpuColumns Materialize CudfColumns BufferedRelations

section Parts

theorem materializeAt_some {relation : GPUIntermediateRelation} {i : Nat} {c : GPUColumn}
    (found : relation[i]? = some c) :
    materializeAt relation i = handleMaterializeExpression c := by
  have there : columnAt relation i = pure c := by rw [columnAt, found]
  rw [materializeAt, there, Proc.pure_bind]

theorem materializeAt_none {relation : GPUIntermediateRelation} {i : Nat}
    (missing : relation[i]? = none) (s : State) :
    materializeAt relation i s = (.error outOfBounds, s) := by
  have none : columnAt relation i s = (.error outOfBounds, s) := by
    rw [columnAt, missing]
    rfl
  exact Proc.bind_error none

theorem handleMaterializeExpression_empty {c c' : GPUColumn} (nothing : isEmptyColumn c = true)
    {s s' : State} (run : handleMaterializeExpression c s = (.ok c', s')) :
    c'.columnLength = 0 ∧ c'.dataWrapper.data = none ∧ s' = s := by
  rcases handleMaterializeExpression_cases c with ⟨-, -, width, resolved⟩ | ⟨-, resolved⟩ |
    ⟨e, resolved⟩
  · rw [resolved, resolveTypeMaterializeExpression, if_pos nothing] at run
    cases run
    exact ⟨rfl, rfl, rfl⟩
  · rw [resolved, resolveTypeMaterializeString, if_pos nothing] at run
    cases run
    exact ⟨rfl, rfl, rfl⟩
  · rw [resolved] at run
    cases run

theorem handleMaterializeExpression_empty_throws {c : GPUColumn}
    (nothing : isEmptyColumn c = true) {s s' : State} {e : Exception}
    (run : handleMaterializeExpression c s = (.error e, s')) : s' = s := by
  rcases handleMaterializeExpression_cases c with ⟨-, -, width, resolved⟩ | ⟨-, resolved⟩ |
    ⟨e, resolved⟩
  · rw [resolved, resolveTypeMaterializeExpression, if_pos nothing] at run
    cases run
  · rw [resolved, resolveTypeMaterializeString, if_pos nothing] at run
    cases run
  · rw [resolved] at run
    cases run
    rfl

theorem handleMaterializeExpression_rows {c c' : GPUColumn} (some : isEmptyColumn c = false)
    {s s' : State} (run : handleMaterializeExpression c s = (.ok c', s')) :
    c'.columnLength = c.rowCount := by
  obtain ⟨d, data⟩ : ∃ d, c.dataWrapper.data = Option.some d := by
    rw [← Option.isSome_iff_exists]
    by_contra missing
    simp [isEmptyColumn, Option.not_isSome_iff_eq_none.mp missing] at some
  have count : c.rowCount = c.rowIds.elim c.columnLength fun _ => c.rowIdCount := by
    rw [GPUColumn.rowCount]
    cases c.rowIds <;> rfl
  rw [count]
  rcases handleMaterializeExpression_cases c with ⟨-, -, width, resolved⟩ | ⟨-, resolved⟩ |
    ⟨e, resolved⟩
  · rw [resolved, resolveTypeMaterializeExpression, some, if_neg (by decide)] at run
    cases late : c.rowIds with
    | none =>
      rw [late] at run
      cases run
      rfl
    | some r =>
      rw [late, data] at run
      obtain ⟨⟨a, outMask⟩, s₁, -, last⟩ := Proc.bind_inv run
      cases last
      rfl
  · rw [resolved, resolveTypeMaterializeString, some, if_neg (by decide)] at run
    cases late : c.rowIds with
    | none =>
      rw [late] at run
      cases run
      rfl
    | some r =>
      rw [late, data] at run
      cases offset : c.dataWrapper.offset with
      | none =>
        simp only [offset] at run
        cases run
      | some o =>
        simp only [offset] at run
        obtain ⟨m, s₁, -, last⟩ := Proc.bind_inv run
        cases last
        rfl
  · rw [resolved] at run
    cases run

/-- Without rows the keys have none, either. -/
theorem materializeAt_empty {relation : GPUIntermediateRelation}
    (nothing : ∀ c ∈ relation, isEmptyColumn c = true) {i : Nat} {key : GPUColumn} {s s' : State}
    (run : materializeAt relation i s = (.ok key, s')) : key.columnLength = 0 := by
  cases found : relation[i]? with
  | none =>
    rw [materializeAt_none found] at run
    cases run
  | some c =>
    rw [materializeAt_some found] at run
    exact (handleMaterializeExpression_empty (nothing c (List.mem_of_getElem? found)) run).1

theorem conditionMode_keeps (P : State → Prop) (keys key : Nat) (comparison : Comparison) :
    Triple P (conditionMode keys key comparison) (fun _ => P) P := by
  unfold conditionMode
  split
  · exact Triple.ret fun _ h => h
  · exact Triple.ret fun _ h => h
  · exact Triple.ite (fun _ => Triple.raise fun _ h => h) fun _ => Triple.ret fun _ h => h
  · exact Triple.ite (fun _ => Triple.raise fun _ h => h) fun _ => Triple.ret fun _ h => h
  · exact Triple.raise fun _ h => h

end Parts

section Frees

variable {F : Handle → Prop} {P : State → Prop} (within : Within F P)
include within

variable {n : Nat} (later : ∀ s, P s → n ≤ s.next) (new : ∀ m, n ≤ m → F (.processing m))
include later new

theorem cudfDuplicateElimination_within (getGroups : State → List GPUColumn → List CudfColumn)
    (keys : List GPUColumn) : Triple P (cudfDuplicateElimination getGroups keys)
      (fun cs s => P s ∧ ∀ c ∈ cs, c.columnLength = 0 ∨ ∀ d ∈ c.dataWrapper.data, F d) P := by
  unfold cudfDuplicateElimination
  apply Triple.ite
  · refine fun _ => Triple.ret fun s hs => ⟨hs, fun c member => .inl ?_⟩
    obtain ⟨key, -, rfl⟩ := List.mem_map.mp member
    split <;> rfl
  · intro _
    have views : Triple P (Proc.collect (fun key =>
        if key.dataWrapper.data.isSome then convertToCudfColumn key
        else Proc.raise (.notImplemented "Group by on non-nullable column not supported")) keys)
        (fun _ => P) P := by
      apply Triple.collect_keeps
      intro key _
      apply Triple.ite
      · exact fun _ => (convertToCudfColumn_within within key).post fun _ _ h => h.2
      · exact fun _ => Triple.raise fun _ h => h
    apply Triple.bind views
    intro views
    apply Triple.bind (Triple.read (Q := fun _ => P) fun _ h => h)
    intro columns
    refine (Triple.collect_all (R := fun c => ∀ d ∈ c.dataWrapper.data, F d) ?_).post ?_
    · rintro ⟨column, key⟩ _
      exact setFromCudfColumn_within within later new column key.isUnique
    · exact fun cs s ⟨hs, all⟩ => ⟨hs, fun c member => .inr (all c member)⟩

/-- What is allocated lies in a new place. -/
theorem customCudaMalloc_new (content : Content) :
    Triple P (customCudaMalloc content) (fun h s => F h ∧ P s) P :=
  fun s hs => ⟨new _ (later s hs), within.allocate s _ hs⟩

end Frees

section Distinct

variable {F : Handle → Prop} {P : State → Prop} (within : Within F P)
include within

theorem combineColumns_within (width : Nat) {a b : Handle} {countA countB : Nat}
    (freed : countA ≠ 0 → countB ≠ 0 → F a ∧ F b) :
    Triple P (combineColumns width a b countA countB) (fun _ => P) P := by
  unfold combineColumns
  apply Triple.ite
  · exact fun _ => Triple.ret fun _ h => h
  · intro counts
    obtain ⟨first, second⟩ := freed (fun none => counts (.inl none))
      fun none => counts (.inr none)
    apply Triple.bind (load_keeps _ _)
    intro bytesA
    apply Triple.bind (load_keeps _ _)
    intro bytesB
    apply Triple.bind (within.customCudaMalloc _)
    intro combined
    apply Triple.bind (within.customCudaFree (some a) (by rintro h ⟨⟩; exact first))
    intro _
    apply Triple.bind (within.customCudaFree (some b) (by rintro h ⟨⟩; exact second))
    exact fun _ => Triple.ret fun _ h => h

theorem combineStrings_within (a b : Handle) (offsetA offsetB : Option Handle)
    (bytesA bytesB countA countB : Nat) :
    Triple P (combineStrings a b offsetA offsetB bytesA bytesB countA countB) (fun _ => P) P := by
  unfold combineStrings
  apply Triple.ite
  · exact fun _ => Triple.ret fun _ h => h
  · intro _
    split
    · apply Triple.bind (load_keeps _ _)
      intro charsA
      apply Triple.bind (load_keeps _ _)
      intro charsB
      apply Triple.bind (load_keeps _ _)
      intro startsA
      apply Triple.bind (load_keeps _ _)
      intro startsB
      apply Triple.bind (within.customCudaMalloc _)
      intro combined
      exact Triple.bind (within.customCudaMalloc _) fun _ => Triple.ret fun _ h => h
    · exact Triple.raise fun _ h => h

theorem combine_within {column₁ column₂ : GPUColumn} {a b : Handle}
    (freed : column₁.columnLength ≠ 0 → column₂.columnLength ≠ 0 → F a ∧ F b) :
    Triple P (combine column₁ column₂ a b) (fun _ => P) P := by
  have fixed : ∀ width,
      Triple P (resolveTypeCombineColumns width column₁ column₂ a b) (fun _ => P) P :=
    fun width => Triple.bind (combineColumns_within within width freed) fun _ =>
      Triple.ret fun _ h => h
  unfold combine
  split
  · exact fixed 4
  · exact fixed 8
  · exact fixed 8
  · exact Triple.bind (combineStrings_within within _ _ _ _ _ _ _ _) fun _ =>
      Triple.ret fun _ h => h
  · exact Triple.raise fun _ h => h

/-- A column that has no rows, or whose data may be freed. -/
def Spendable (F : Handle → Prop) (c : GPUColumn) : Prop :=
  c.columnLength = 0 ∨ ∀ d ∈ c.dataWrapper.data, F d

theorem mergeResult_within {result : Option GPUColumn} {column : GPUColumn}
    (kept : ∀ r ∈ result, ∀ d ∈ r.dataWrapper.data, F d)
    (made : Spendable F column ∨ ∀ r ∈ result, r.columnLength = 0) :
    Triple P (mergeResult (result, column)) (fun _ => P) P := by
  unfold mergeResult
  split
  · exact Triple.ret fun _ h => h
  · rename_i r column' same
    cases same
    split
    · rename_i a b first second
      refine Triple.bind (combine_within within fun before rows => ?_) fun _ =>
        Triple.ret fun _ h => h
      have spendable := made.resolve_right fun none => before (none r rfl)
      exact ⟨kept r rfl a first, (spendable.resolve_left rows) b second⟩
    · exact Triple.ret fun _ h => h
    · exact Triple.ret fun _ h => h

/-- A column without data is materialized without a free. -/
theorem materializeAt_within {relation : GPUIntermediateRelation} {i : Nat}
    (consumed : ∀ c ∈ relation[i]?, c.dataWrapper.data ≠ none → ∀ h, Consumed c h → F h) :
    Triple P (materializeAt relation i) (fun _ => P) P := by
  cases found : relation[i]? with
  | none =>
    intro s hs
    rw [materializeAt_none found]
    exact hs
  | some c =>
    rw [materializeAt_some found]
    cases empty : isEmptyColumn c with
    | true =>
      intro s hs
      rcases run : handleMaterializeExpression c s with ⟨result, s'⟩
      cases result with
      | ok c' =>
        obtain rfl := (handleMaterializeExpression_empty empty run).2.2
        exact hs
      | error e =>
        obtain rfl := handleMaterializeExpression_empty_throws empty run
        exact hs
    | false =>
      refine handleMaterializeExpression_within within (consumed c found ?_)
      rintro missing
      simp [isEmptyColumn, missing] at empty

variable {n : Nat} (later : ∀ s, P s → n ≤ s.next) (new : ∀ m, n ≤ m → F (.processing m))
include later new

theorem materializeExpression_spendable (width : Nat) (a r : Handle) (count : Nat)
    (m : Option Handle) (freed : ∀ h, h = a ∨ h ∈ m → F h) :
    Triple P (materializeExpression width a r count m) (fun made s => F made.1 ∧ P s) P := by
  apply Triple.bind (load_keeps _ _)
  intro data
  apply Triple.bind (loadRowIds_keeps _ _)
  intro ids
  apply Triple.bind (customCudaMalloc_new within later new _)
  intro result
  apply Triple.given
  intro inside
  apply Triple.bind (materializeMask_within within _ _)
  intro outMask
  apply Triple.bind (within.customCudaFree (some a) (by rintro h ⟨⟩; exact freed _ (.inl rfl)))
  intro _
  exact Triple.bind (within.customCudaFree m fun h hm => freed h (.inr hm)) fun _ =>
    Triple.ret fun _ h => ⟨inside, h⟩

theorem materializeString_spendable (d o r : Handle) (count : Nat) (m : Option Handle)
    (freed : ∀ h, h = d ∨ h = o ∨ h ∈ m → F h) :
    Triple P (materializeString d o r count m) (fun made s => F made.result ∧ P s) P := by
  apply Triple.bind (load_keeps _ _)
  intro chars
  apply Triple.bind (load_keeps _ _)
  intro starts
  apply Triple.bind (loadReachedRowIds_keeps _ _)
  intro ids
  apply Triple.bind (within.customCudaMalloc _)
  intro resultOffset
  apply Triple.bind (materializeMask_within within _ _)
  intro outMask
  apply Triple.bind (customCudaMalloc_new within later new _)
  intro result
  apply Triple.given
  intro inside
  apply Triple.bind (within.customCudaFree (some d) (by rintro h ⟨⟩; exact freed _ (.inl rfl)))
  intro _
  apply Triple.bind (within.customCudaFree (some o)
    (by rintro h ⟨⟩; exact freed _ (.inr (.inl rfl))))
  intro _
  exact Triple.bind (within.customCudaFree m fun h hm => freed h (.inr (.inr hm))) fun _ =>
    Triple.ret fun _ h => ⟨inside, h⟩

/-- What is materialized from row ids lies in a new place. -/
theorem handleMaterializeExpression_spendable {c : GPUColumn} (late : c.rowIds ≠ none)
    (some : isEmptyColumn c = false) (consumed : ∀ h, Consumed c h → F h) :
    Triple P (handleMaterializeExpression c) (fun key s => Spendable F key ∧ P s) P := by
  obtain ⟨r, late⟩ := Option.ne_none_iff_exists'.mp late
  obtain ⟨d, data⟩ : ∃ d, c.dataWrapper.data = Option.some d := by
    rw [← Option.isSome_iff_exists]
    by_contra missing
    simp [isEmptyColumn, Option.not_isSome_iff_eq_none.mp missing] at some
  have spent : ∀ h ∈ c.buffers, F h := fun h member =>
    consumed h (consumed_of_late (by simp [some]) late member)
  rcases handleMaterializeExpression_cases c with ⟨-, fixed, width, run⟩ | ⟨string, run⟩ |
    ⟨e, run⟩
  · rw [run]
    simp only [resolveTypeMaterializeExpression, some, late, data]
    refine Triple.bind (materializeExpression_spendable within later new _ _ _ _ _ ?_) ?_
    · rintro h (rfl | mask)
      · exact spent h (by simp [GPUColumn.buffers, data])
      · exact spent h (by simp [GPUColumn.buffers, Option.mem_def.mp mask])
    · intro made
      refine Triple.ret fun s h => ⟨.inr ?_, h.2⟩
      rintro d ⟨⟩
      exact h.1
  · rw [run]
    simp only [resolveTypeMaterializeString, some, late, data]
    cases offset : c.dataWrapper.offset with
    | none => exact Triple.raise fun _ h => h
    | some o =>
      refine Triple.bind (materializeString_spendable within later new _ _ _ _ _ ?_) ?_
      · rintro h (rfl | rfl | mask)
        · exact spent h (by simp [GPUColumn.buffers, data])
        · exact spent h (by simp [GPUColumn.buffers, string, offset])
        · exact spent h (by simp [GPUColumn.buffers, Option.mem_def.mp mask])
      · intro made
        refine Triple.ret fun s h => ⟨.inr ?_, h.2⟩
        rintro d ⟨⟩
        exact h.1
  · rw [run]
    exact Triple.raise fun _ h => h

theorem materializeAt_spendable {relation : GPUIntermediateRelation} {i : Nat}
    (consumed : ∀ c ∈ relation[i]?, c.dataWrapper.data ≠ none → ∀ h, Consumed c h → F h)
    (late : ∀ c ∈ relation[i]?, isEmptyColumn c = true ∨ c.rowIds ≠ none) :
    Triple P (materializeAt relation i) (fun key s => Spendable F key ∧ P s) P := by
  intro s hs
  have kept := materializeAt_within within consumed s hs
  rcases run : materializeAt relation i s with ⟨result, s'⟩
  rw [run] at kept
  cases result with
  | error e => exact kept
  | ok key =>
    cases found : relation[i]? with
    | none =>
      rw [materializeAt_none found] at run
      cases run
    | some c =>
      rw [materializeAt_some found] at run
      cases empty : isEmptyColumn c with
      | true => exact ⟨.inl (handleMaterializeExpression_empty empty run).1, kept⟩
      | false =>
        have data : c.dataWrapper.data ≠ none := by
          intro missing
          simp [isEmptyColumn, missing] at empty
        have made := handleMaterializeExpression_spendable within later new
          ((late c found).resolve_left (by simp [empty])) empty (consumed c found data) s hs
        rw [run] at made
        exact made

theorem distinct_within (getGroups : State → List GPUColumn → List CudfColumn)
    {groupByResult : List (Option GPUColumn)} {relation : GPUIntermediateRelation}
    {keys : List GPUColumn}
    (results : ∀ r ∈ groupByResult, ∀ c ∈ r, ∀ d ∈ c.dataWrapper.data, F d)
    (passed : columnSize relation = 0 → (∀ key ∈ keys, Spendable F key) ∨
      ∀ r ∈ groupByResult, ∀ c ∈ r, c.columnLength = 0) :
    Triple P (do
      let distinct ← eliminateDuplicates getGroups relation keys
      Proc.collect mergeResult (groupByResult.zip distinct)) (fun _ => P) P := by
  have made : Triple P (eliminateDuplicates getGroups relation keys)
      (fun cs s => ((∀ c ∈ cs, Spendable F c) ∨
        ∀ r ∈ groupByResult, ∀ c ∈ r, c.columnLength = 0) ∧ P s) P := by
    apply Triple.ite
    · exact fun none => Triple.ret fun s hs => ⟨passed none, hs⟩
    · intro _
      cases keys.head? with
      | none => exact Triple.raise fun _ h => h
      | some key =>
        apply Triple.ite
        · exact fun _ => Triple.raise fun _ h => h
        · intro _
          exact (cudfDuplicateElimination_within within later new getGroups keys).post
            fun _ _ h => ⟨.inl h.2, h.1⟩
  apply Triple.bind made
  intro distinct
  apply Triple.given
  intro spendable
  apply Triple.collect_keeps
  rintro ⟨result, column⟩ member
  obtain ⟨before, now⟩ := List.of_mem_zip member
  exact mergeResult_within within (results result before)
    (spendable.imp (fun all => all column now) fun none => none result before)

end Distinct

section Builds

variable {F : Handle → Prop} {P : State → Prop} (within : Within F P)
include within

theorem allocateTable_within (j : HashJoin) (htLen : Nat) :
    Triple P (allocateTable j htLen) (fun _ => P) P := by
  unfold allocateTable
  split
  · apply Triple.ite
    · exact fun _ => Triple.ret fun _ h => h
    · exact fun _ => Triple.bind (within.customCudaMalloc _) fun _ => Triple.ret fun _ h => h
  · exact Triple.ret fun _ h => h

variable {n : Nat} (later : ∀ s, P s → n ≤ s.next) (new : ∀ m, n ≤ m → F (.processing m))
include later new

theorem buildHashTable_within (keys : List (Option Handle)) (htLen size : Nat) :
    Triple P (buildHashTable keys htLen size) (fun _ => P) P := by
  apply Triple.ite
  · exact fun _ => Triple.ret fun _ h => h
  · intro _
    apply Triple.bind (customCudaMalloc_new within later new _)
    intro keysDev
    apply Triple.given
    intro inside
    refine Triple.bind (?_ : Triple P _ (fun _ => P) P) fun _ => ?_
    · apply Triple.each (I := fun _ => P)
      rintro _ (_ | data) _ _
      · exact Triple.raise fun _ h => h
      · exact Triple.bind (load_keeps _ _) fun _ => Triple.ret fun _ h => h
    · exact within.customCudaFree (some keysDev) (by rintro h ⟨⟩; exact inside)

theorem handleBuildExpression_within (j : HashJoin) (keys : List GPUColumn) (key : GPUColumn)
    (htLen : Nat) : Triple P (handleBuildExpression j keys key htLen) (fun _ => P) P := by
  have resolved : Triple P (resolveTypeBuildExpression j keys htLen key.columnLength)
      (fun _ => P) P := by
    refine Triple.bind (Triple.collect_keeps fun x _ => conditionMode_keeps _ _ _ _) ?_
    intro _
    cases j.joinType
    all_goals first
    | exact buildHashTable_within within later new _ _ _
    | exact Triple.raise fun _ h => h
  unfold handleBuildExpression
  cases key.type
  all_goals first
  | exact resolved
  | exact Triple.raise fun _ h => h

theorem buildSide_within (j : HashJoin) (uniqueBuildKeys : Bool)
    (relation : GPUIntermediateRelation) (keys : List GPUColumn) :
    Triple P (buildSide j uniqueBuildKeys relation keys) (fun _ => P) P := by
  unfold buildSide
  cases keys.head? with
  | none => exact Triple.raise fun _ h => h
  | some key =>
    apply Triple.bind (allocateTable_within within j _)
    intro hashTable
    have build : Triple P (buildUnlessInner j keys key (key.columnLength * 2))
        (fun _ => P) P := by
      apply Triple.ite
      · exact fun _ => Triple.ret fun _ h => h
      · exact fun _ => handleBuildExpression_within within later new j keys key _
    apply Triple.bind build
    intro _
    have room : Triple P (checkRoom j) (fun _ => P) P := by
      apply Triple.ite
      · exact fun _ => Triple.raise fun _ h => h
      · exact fun _ => Triple.ret fun _ h => h
    apply Triple.bind room
    intro _
    have read : Triple P (Proc.collect (columnAt relation) (j.keyColumns ++ j.payloadColumns))
        (fun _ => P) P := by
      apply Triple.collect_keeps
      intro i _
      unfold columnAt
      cases relation[i]? with
      | none => exact Triple.raise fun _ h => h
      | some c => exact Triple.ret fun _ h => h
    exact Triple.bind read fun _ => Triple.ret fun _ h => h

end Builds

section Sinks

/-- The columns a sink materializes. -/
def Operator.keys : Operator → List Nat
  | .leftDelimJoin groups _ => groups
  | .hashJoin j => j.keyColumns
  | _ => []

/-- The columns of a relation that are kept. -/
def Operator.passed (width : Nat) : Operator → List Nat
  | .hashJoin j => j.keyColumns ++ j.payloadColumns
  | _ => List.range width

/-- A kept column, as it is read later. -/
def Operator.view (c : GPUColumn) : Operator → GPUColumn
  | .cte | .leftDelimJoin _ _ => GPUColumn.copied c
  | .nestedLoopJoin =>
    { newColumn c.columnLength c.type c.dataWrapper.data none with
      rowIds := c.rowIds
      rowIdCount := c.rowIdCount }
  | .hashJoin _ => c

def reads (c : GPUColumn) : List Handle := c.buffers ++ c.rowIds.toList

/-- What a sink consumes: the buffers of the columns with data it materializes. -/
def Spent (op : Operator) (relation : GPUIntermediateRelation) (h : Handle) : Prop :=
  ∃ i ∈ Operator.keys op, ∃ c, relation[i]? = some c ∧ c.dataWrapper.data ≠ none ∧ Consumed c h

def Freed (op : Operator) (s : State) (relation : GPUIntermediateRelation) (h : Handle) : Prop :=
  h ∈ s.allocationTable ∧ Spent op relation h

/-- The distinct of a delim join keeps columns of its own. -/
def Apart (stored : Stored) (relation : GPUIntermediateRelation) : Prop :=
  ∀ r ∈ stored.groupByResult, ∀ g ∈ r, ∀ d ∈ g.dataWrapper.data, ∀ c ∈ relation, d ∉ reads c

variable {op : Operator} {stored stored' : Stored} {relation : GPUIntermediateRelation}
  {s s' : State} {P Q : State → Prop}

/-- What a sink may free beside what it consumes. -/
def Private (stored : Stored) (s : State) (h : Handle) : Prop :=
  (∃ r ∈ stored.groupByResult, ∃ g ∈ r, h ∈ g.dataWrapper.data) ∨ s.New h

theorem lockAllocation_keeps (ptr : Option Handle)
    (locked : ∀ s h, P s → P (s.lock h)) : Triple P (lockAllocation ptr) (fun _ => P) P := by
  cases ptr with
  | none => exact Triple.ret fun _ h => h
  | some h => exact Triple.update fun s hs => locked s h hs

theorem cteSink_keeps (locked : ∀ s h, P s → P (s.lock h))
    (relation : GPUIntermediateRelation) : Triple P (cteSink relation) (fun _ => P) P := by
  apply Triple.collect_keeps
  intro c _
  apply Triple.bind (lockAllocation_keeps _ locked)
  intro _
  apply Triple.bind (lockAllocation_keeps _ locked)
  intro _
  apply Triple.ite
  · exact fun _ => Triple.bind (lockAllocation_keeps _ locked) fun _ => Triple.ret fun _ h => h
  · exact fun _ => Triple.ret fun _ h => h

theorem materializeKeys_within (op : Operator) {F : Handle → Prop} (within : Within F P)
    (spent : ∀ h, Spent op relation h → F h) :
    Triple P (Proc.collect (materializeAt relation) (Operator.keys op)) (fun _ => P) P := by
  apply Triple.collect_keeps
  intro i member
  exact materializeAt_within within fun c found data h consumed =>
    spent h ⟨i, member, c, found, data, consumed⟩

/-- A distinct that has kept no rows. -/
def Unfilled (stored : Stored) : Prop :=
  ∀ r ∈ stored.groupByResult, ∀ g ∈ r, g.columnLength = 0

/-- No group column is passed on whose buffers the distinct would free: where the first column
counts no rows, the groups are late or empty, or the distinct has kept nothing to add them to. -/
def Quiet (op : Operator) (stored : Stored) (relation : GPUIntermediateRelation) : Prop :=
  match op with
  | .leftDelimJoin groups _ => columnSize relation = 0 →
      (∀ i ∈ groups, ∀ c ∈ relation[i]?, isEmptyColumn c = true ∨ c.rowIds ≠ none) ∨
      Unfilled stored
  | _ => True

theorem materializeKeys_spendable (op : Operator) {F : Handle → Prop} (within : Within F P)
    {n : Nat} (later : ∀ s, P s → n ≤ s.next) (new : ∀ m, n ≤ m → F (.processing m))
    (spent : ∀ h, Spent op relation h → F h)
    (late : ∀ i ∈ Operator.keys op, ∀ c ∈ relation[i]?, isEmptyColumn c = true ∨ c.rowIds ≠ none) :
    Triple P (Proc.collect (materializeAt relation) (Operator.keys op))
      (fun keys s => P s ∧ ∀ key ∈ keys, Spendable F key) P := by
  apply Triple.collect_all
  intro i member
  exact (materializeAt_spendable within later new (fun c found data h consumed =>
    spent h ⟨i, member, c, found, data, consumed⟩) (late i member)).post fun _ _ h => ⟨h.2, h.1⟩

/-- The keys of a relation without rows have none. -/
theorem materializeKeys_empty {keys : List GPUColumn} {groups : List Nat}
    (nothing : ∀ c ∈ relation, isEmptyColumn c = true)
    (run : Proc.collect (materializeAt relation) groups s = (.ok keys, s')) :
    ∀ key ∈ keys, key.columnLength = 0 := by
  intro key member
  have steps := Proc.collect_inv run
  obtain ⟨k, inside, rfl⟩ := List.getElem_of_mem member
  obtain ⟨s₁, s₂, made⟩ := steps.get (by rwa [steps.length_eq]) inside
  exact materializeAt_empty nothing made

/-- A sink keeps a property that only frees of what it consumes, or of what is its own, end. -/
theorem sink_within {F : Handle → Prop} (within : Within F P)
    (locked : ∀ s h, P s → P (s.lock h)) {n : Nat} (later : ∀ s, P s → n ≤ s.next)
    (new : ∀ m, n ≤ m → F (.processing m)) (spent : ∀ h, Spent op relation h → F h)
    (results : ∀ r ∈ stored.groupByResult, ∀ g ∈ r, ∀ d ∈ g.dataWrapper.data, F d)
    (quiet : Quiet op stored relation) :
    Triple P (op.sink stored relation) (fun _ => P) P := by
  cases op with
  | cte => exact Triple.bind (cteSink_keeps locked relation) fun _ => Triple.ret fun _ h => h
  | nestedLoopJoin => exact Triple.ret fun _ h => h
  | leftDelimJoin groups getGroups =>
    refine Triple.bind (Q := fun _ => P) ?_ fun _ => Triple.ret fun _ h => h
    by_cases counted : columnSize relation = 0
    · rcases quiet counted with late | none
      · have keys : Triple P (Proc.collect (materializeAt relation) groups)
            (fun keys s => (∀ key ∈ keys, Spendable F key) ∧ P s) P :=
          (materializeKeys_spendable (.leftDelimJoin groups getGroups) within later new spent
            late).post fun _ _ h => ⟨h.2, h.1⟩
        refine Triple.bind keys fun keys => Triple.given fun spendable => ?_
        exact distinct_within within later new getGroups results fun _ => .inl spendable
      · exact Triple.bind (materializeKeys_within (.leftDelimJoin groups getGroups) within spent)
          fun keys => distinct_within within later new getGroups results fun _ => .inr none
    · exact Triple.bind (materializeKeys_within (.leftDelimJoin groups getGroups) within spent)
        fun keys => distinct_within within later new getGroups results (absurd · counted)
  | hashJoin j =>
    refine Triple.bind (Q := fun _ => P) ?_ fun _ => Triple.ret fun _ h => h
    apply Triple.ite
    · exact fun _ => Triple.raise fun _ h => h
    · intro _
      refine Triple.bind (materializeKeys_within (.hashJoin j) within spent) ?_
      exact fun keys => buildSide_within within later new j _ _ keys

/-- What is spent of a column with rows is gone after the sink. -/
theorem sink_frees (fresh : s.Fresh) (run : op.sink stored relation s = (.ok stored', s'))
    (full : ∀ c ∈ relation, c.dataWrapper.data ≠ none → c.rowCount ≠ 0 → isEmptyColumn c = false)
    (live : ∀ c ∈ relation, c.dataWrapper.data ≠ none → c.rowCount ≠ 0 →
      ∀ h ∈ c.buffers, s.Live h)
    {h : Handle} (freed : Freed op s relation h) : s'.contents h = none := by
  obtain ⟨allocated, i, member, c, found, data, consumed⟩ := freed
  have there := List.mem_of_getElem? found
  obtain ⟨n, rfl⟩ : ∃ n, h = .processing n := by
    cases h with
    | caching n => exact absurd allocated (fresh.apart n)
    | processing n => exact ⟨n, rfl⟩
  have doomed : Doomed (.processing n) s :=
    ⟨fresh.not_new (live c there data consumed.2.1 _ consumed.2.2), .inl allocated⟩
  have keys : Triple (Doomed (.processing n))
      (Proc.collect (materializeAt relation) (Operator.keys op))
      (fun _ => Gone (.processing n)) fun _ => True := by
    refine Triple.collect_reaches (b := i) ?_ ?_ member ?_
    · exact fun _ => (materializeAt_within ((doomed_stable _).within fun _ => True)
        fun _ _ _ _ _ => trivial).lax
    · exact fun _ => (materializeAt_within ((gone_stable _).within fun _ => True)
        fun _ _ _ _ _ => trivial).lax
    · rw [materializeAt_some found]
      exact handleMaterializeExpression_frees (doomed_stable _) (gone_stable _)
        (customCudaFree_gone n) (full c there data consumed.2.1) consumed
  have all : Within (fun _ => True) (Gone (.processing n)) := (gone_stable _).within _
  have gone : Triple (Doomed (.processing n)) (op.sink stored relation)
      (fun _ => Gone (.processing n)) fun _ => True := by
    cases op with
    | cte => cases member
    | nestedLoopJoin => cases member
    | leftDelimJoin groups getGroups =>
      refine Triple.bind (Q := fun _ => Gone (.processing n)) ?_ fun _ => Triple.ret fun _ h => h
      intro s₀ hs
      have first := keys s₀ hs
      rcases made : Proc.collect (materializeAt relation) groups s₀ with ⟨result, s₁⟩
      rw [show Operator.keys (.leftDelimJoin groups getGroups) = groups from rfl, made] at first
      cases result with
      | error e =>
        rw [distinctSink, Proc.bind_error made]
        trivial
      | ok columns =>
        rw [distinctSink, Proc.bind_ok made]
        exact (distinct_within all (n := 0) (fun _ _ => Nat.zero_le _) (fun _ _ => trivial)
          getGroups (fun _ _ _ _ _ _ => trivial)
          fun _ => .inl fun _ _ => .inr fun _ _ => trivial).lax s₁ first
    | hashJoin j =>
      refine Triple.bind (Q := fun _ => Gone (.processing n)) ?_ fun _ => Triple.ret fun _ h => h
      apply Triple.ite
      · exact fun _ => Triple.raise fun _ _ => trivial
      · refine fun _ => Triple.bind keys fun columns => ?_
        exact (buildSide_within all (n := 0) (fun _ _ => Nat.zero_le _) (fun _ _ => trivial)
          j _ _ columns).lax
  have after := gone s doomed
  rw [run] at after
  exact after.2

end Sinks

section Relations

/-- A column of a relation of `rows` rows has these values. One without data is NULL in every
row, as the left ones of `GetData` of a RIGHT join. -/
structure Reads (s : State) (rows : Nat) (c : GPUColumn) (values : List (Option Bytes)) : Prop where
  length : values.length = rows
  null : c.dataWrapper.data = none → ∀ v ∈ values, v = none
  content : c.dataWrapper.data ≠ none → logical s c = some values

/-- A relation that is sunk, with the rows its columns have in the memory its pipeline has left.
Only columns with data count rows. -/
structure Sunk where
  memory : State
  relation : GPUIntermediateRelation
  rows : Nat
  value : Nat → List (Option Bytes)
  fresh : memory.Fresh
  content : ∀ i c, relation[i]? = some c → Reads memory rows c (value i)
  counted : rows ≠ 0 → ∃ c ∈ relation, c.dataWrapper.data ≠ none
  old : ∀ c ∈ relation, ∀ h ∈ reads c, ¬ memory.New h

variable {op : Operator} {x : Sunk} {stored stored' : Stored} {s' : State} {c : GPUColumn}
  {i : Nat} {values : List (Option Bytes)}

theorem Sunk.length (x : Sunk) (found : x.relation[i]? = some c) :
    (x.value i).length = x.rows := (x.content i c found).length

theorem Sunk.column (x : Sunk) (member : c ∈ x.relation) (data : c.dataWrapper.data ≠ none) :
    ∃ values, logical x.memory c = some values ∧ values.length = x.rows := by
  obtain ⟨i, inside, rfl⟩ := List.getElem_of_mem member
  have read := x.content i _ (List.getElem?_eq_getElem inside)
  exact ⟨_, read.content data, read.length⟩

theorem Sunk.rowCount (x : Sunk) (member : c ∈ x.relation) (data : c.dataWrapper.data ≠ none) :
    c.rowCount = x.rows := by
  obtain ⟨values, content, length⟩ := x.column member data
  rw [← logical_length content, length]

theorem Sunk.isEmpty_iff (x : Sunk) (member : c ∈ x.relation) (data : c.dataWrapper.data ≠ none) :
    isEmptyColumn c = true ↔ x.rows = 0 := by
  obtain ⟨values, content, -⟩ := x.column member data
  rw [isEmptyColumn_iff_of_logical content, x.rowCount member data]

theorem Sunk.full (x : Sunk) (member : c ∈ x.relation) (data : c.dataWrapper.data ≠ none)
    (rows : c.rowCount ≠ 0) : isEmptyColumn c = false := by
  rw [x.rowCount member data] at rows
  simpa [← x.isEmpty_iff member data] using rows

theorem Sunk.live (x : Sunk) (member : c ∈ x.relation) (data : c.dataWrapper.data ≠ none)
    (rows : c.rowCount ≠ 0) : ∀ h ∈ c.buffers, x.memory.Live h := by
  obtain ⟨values, content, -⟩ := x.column member data
  exact live_of_logical content rows

theorem Sunk.empty (x : Sunk) (none : x.rows = 0) : ∀ c ∈ x.relation, isEmptyColumn c = true := by
  intro c member
  by_cases data : c.dataWrapper.data = Option.none
  · simp [isEmptyColumn, data]
  · exact (x.isEmpty_iff member data).mpr none

/-- What a column reads holds after the sink what it held before, unless it was freed. -/
theorem Sunk.contents (x : Sunk) (apart : Apart stored x.relation)
    (quiet : Quiet op stored x.relation)
    (run : op.sink stored x.relation x.memory = (.ok stored', s')) (member : c ∈ x.relation)
    {h : Handle} (read : h ∈ reads c) (kept : ¬ Freed op x.memory x.relation h) :
    s'.contents h = x.memory.contents h := by
  by_cases live : x.memory.Live h
  · let F := fun h => Spent op x.relation h ∨ Private stored x.memory h
    have within : Within F (Keeps x.memory · F) := keeps_within x.memory F
    have all : Triple (Keeps x.memory · F) (op.sink stored x.relation)
        (fun _ => (Keeps x.memory · F)) (Keeps x.memory · F) :=
      sink_within within
        (fun s g keeps => (keeps.trans (keeps_lock keeps.fresh g)).mono fun _ h => h.elim id id)
        (fun s keeps => keeps.next) (fun m le => .inr (.inr ⟨m, le, rfl⟩))
        (fun g spent => .inl spent) (fun r hr g hg d hd => .inr (.inl ⟨r, hr, g, hg, hd⟩)) quiet
    have all := all x.memory (Keeps.refl x.fresh)
    rw [run] at all
    refine all.contents h live fun inside allocated => ?_
    rcases inside with spent | ⟨r, hr, g, hg, hd⟩ | new
    · exact kept ⟨allocated, spent⟩
    · exact apart r hr g hg h hd c member read
    · exact x.old c member h read new
  · have dead : x.memory.contents h = none := by
      by_contra some
      exact live some
    have gone : Triple (Gone h) (op.sink stored x.relation) (fun _ => Gone h) (Gone h) :=
      sink_within ((gone_stable h).within fun _ => True) (fun s g => gone_lock h g)
        (fun _ _ => Nat.zero_le _) (fun _ _ => trivial) (fun _ _ => trivial)
        (fun _ _ _ _ _ _ => trivial) quiet
    have gone := gone x.memory ⟨x.old c member h read, dead⟩
    rw [run] at gone
    rw [dead]
    exact gone.2

theorem buffers_bare (offset : c.dataWrapper.offset = none)
    (mask : c.dataWrapper.validityMask = none) : c.buffers = c.dataWrapper.data.toList := by
  rw [GPUColumn.buffers, offset, mask]
  split <;> simp

theorem reads_view (op : Operator) (c : GPUColumn) :
    reads (Operator.view c op) = match op with
      | .hashJoin _ => reads c
      | .nestedLoopJoin => c.dataWrapper.data.toList ++ c.rowIds.toList
      | _ => c.dataWrapper.data.toList := by
  cases op with
  | hashJoin j => rfl
  | nestedLoopJoin => exact congrArg (· ++ c.rowIds.toList) (buffers_bare rfl rfl)
  | _ => exact (List.append_nil _).trans (buffers_bare rfl rfl)

theorem view_reads (op : Operator) (c : GPUColumn) :
    ∀ h ∈ reads (Operator.view c op), h ∈ reads c := by
  intro h read
  rw [reads_view] at read
  simp only [reads, GPUColumn.buffers, List.mem_append]
  cases op with
  | hashJoin j => simpa [reads, GPUColumn.buffers, or_assoc] using read
  | nestedLoopJoin => simp_all; tauto
  | _ => simp_all

/-- What is read of a column after the sink. -/
theorem Sunk.view_iff (x : Sunk) (apart : Apart stored x.relation)
    (quiet : Quiet op stored x.relation)
    (run : op.sink stored x.relation x.memory = (.ok stored', s')) (member : c ∈ x.relation) :
    logical s' (Operator.view c op) = some values ↔
      logical x.memory (Operator.view c op) = some values ∧ (values ≠ [] →
        ∀ h ∈ reads (Operator.view c op), ¬ Freed op x.memory x.relation h) := by
  have same : (∀ h ∈ reads (Operator.view c op), ¬ Freed op x.memory x.relation h) →
      logical s' (Operator.view c op) = logical x.memory (Operator.view c op) := fun kept =>
    logical_congr fun h read =>
      x.contents apart quiet run member (view_reads op c h read) (kept h read)
  by_cases rows : (Operator.view c op).rowCount = 0
  · have none : ∀ s, logical s (Operator.view c op) = some [] := fun s => if_pos rows
    rw [none s', none x.memory]
    constructor
    · rintro ⟨⟩
      exact ⟨rfl, fun some => absurd rfl some⟩
    · exact fun h => h.1
  · constructor
    · intro content
      have kept : ∀ h ∈ reads (Operator.view c op), ¬ Freed op x.memory x.relation h := by
        intro h read freed
        have gone := sink_frees x.fresh run (fun c member => x.full member)
          (fun c member => x.live member) freed
        obtain ⟨b, rowIds, -, ids, -⟩ := (logical_iff rows).mp content
        rcases List.mem_append.mp read with buffer | late
        · exact live_of_logical content rows h buffer gone
        · exact live_of_ids ids h (by simpa using late) gone
      exact ⟨(same kept).symm.trans content, fun _ => kept⟩
    · rintro ⟨content, kept⟩
      have some : values ≠ [] := by
        rintro rfl
        exact rows (logical_length content).symm
      exact (same (kept some)).trans content

end Relations

section Views

variable {s : State} {c : GPUColumn} {values : List (Option Bytes)}

/-- The values stand in the data of a column, one after another from the start to the end. -/
def InBuffer (s : State) (c : GPUColumn) (values : List (Option Bytes)) : Prop :=
  c.columnLength = values.length ∧ (values ≠ [] → c.type ≠ .varchar ∧
    ∃ d bytes, c.dataWrapper.data = some d ∧ s.at Content.asBytes d = some bytes ∧
      c.columnLength * getColumnTypeSize c.type ≤ bytes.length ∧
      values = (List.range c.columnLength).map fun i =>
        some (ColumnFormat.slice bytes (i * getColumnTypeSize c.type)
          ((i + 1) * getColumnTypeSize c.type)))

/-- A base without offsets and without mask. -/
theorem baseOf_bare {b : Base} (offset : c.dataWrapper.offset = none)
    (mask : c.dataWrapper.validityMask = none) :
    baseOf s c = some b ↔ c.type ≠ .varchar ∧ ∃ d, c.dataWrapper.data = some d ∧
      s.at Content.asBytes d = some b.bytes ∧
      c.columnLength * getColumnTypeSize c.type ≤ b.bytes.length ∧
      b = ⟨b.bytes, fun i => i * getColumnTypeSize c.type, none⟩ := by
  rw [baseOf_iff, mask]
  constructor
  · rintro ⟨⟨d, data, atData⟩, starts, noMask, sound⟩
    have fixed : c.type ≠ .varchar := by
      intro string
      obtain ⟨o, -, missing, -⟩ := (startsOf_string string).mp starts
      simp [offset] at missing
    rw [startsOf_fixed fixed] at starts
    have start := Option.some.inj starts
    have none := Option.some.inj noMask
    refine ⟨fixed, d, data, atData, ?_, ?_⟩
    · have last := sound.2
      rwa [← start] at last
    · cases b
      simp_all
  · rintro ⟨fixed, d, data, atData, room, bare⟩
    rw [bare]
    refine ⟨⟨d, data, atData⟩, startsOf_fixed fixed, rfl, fun i _ => ?_, room⟩
    exact Nat.mul_le_mul_right _ (Nat.le_succ i)

theorem copied_iff : logical s (GPUColumn.copied c) = some values ↔ InBuffer s c values := by
  have count : (GPUColumn.copied c).rowCount = c.columnLength := rfl
  by_cases rows : c.columnLength = 0
  · have none : logical s (GPUColumn.copied c) = some [] := if_pos rows
    rw [none]
    constructor
    · rintro ⟨⟩
      exact ⟨rows, fun some => absurd rfl some⟩
    · rintro ⟨length, -⟩
      rw [List.length_eq_zero_iff.mp (length.symm.trans rows)]
  · rw [logical_iff (count ▸ rows)]
    constructor
    · rintro ⟨b, rowIds, found, ids, rfl⟩
      obtain ⟨fixed, d, data, atData, room, bare⟩ := (baseOf_bare rfl rfl).mp found
      have all : List.range c.columnLength = rowIds := Option.some.inj ids
      subst all
      refine ⟨by rw [List.length_map, List.length_range], fun _ =>
        ⟨fixed, d, b.bytes, data, atData, room, ?_⟩⟩
      rw [bare]
      rfl
    · rintro ⟨length, stands⟩
      have some : values ≠ [] := by
        rintro rfl
        exact rows length
      obtain ⟨fixed, d, bytes, data, atData, room, same⟩ := stands some
      refine ⟨⟨bytes, fun i => i * getColumnTypeSize c.type, none⟩, List.range c.columnLength,
        (baseOf_bare rfl rfl).mpr ⟨fixed, d, data, atData, room, rfl⟩, rfl, same⟩

/-- Without offsets and mask the rows are kept if they need none. -/
theorem unmasked_iff (content : logical s c = some values) :
    logical s (Operator.view c .nestedLoopJoin) = some values ↔
      (values ≠ [] → c.type ≠ .varchar ∧ none ∉ values) := by
  have count : (Operator.view c .nestedLoopJoin).rowCount = c.rowCount := rfl
  by_cases rows : c.rowCount = 0
  · have empty : values = [] := by
      rw [← List.length_eq_zero_iff, logical_length content, rows]
    subst empty
    have none : logical s (Operator.view c .nestedLoopJoin) = some [] := if_pos rows
    rw [none]
    exact ⟨fun _ some => absurd rfl some, fun _ => rfl⟩
  · obtain ⟨b, rowIds, found, ids, rfl⟩ := (logical_iff rows).mp content
    have ids' : idsOf s (Operator.view c .nestedLoopJoin) = some rowIds := ids
    have some : rowIds.map b.entry ≠ [] := by
      intro none
      have length := logical_length content
      rw [none] at length
      exact rows length.symm
    rw [logical_iff (count ▸ rows)]
    constructor
    · rintro ⟨b', rowIds', found', atIds, same⟩ -
      cases ids'.symm.trans atIds
      obtain ⟨fixed, -, -, -, -, bare⟩ := (baseOf_bare rfl rfl).mp found'
      refine ⟨fixed, fun null => ?_⟩
      rw [same, bare] at null
      obtain ⟨i, -, null⟩ := List.mem_map.mp null
      simp [Base.entry, maskBit] at null
    · intro plain
      obtain ⟨fixed, valid⟩ := plain some
      obtain ⟨⟨d, data, atData⟩, starts, -, sound⟩ := baseOf_iff.mp found
      rw [startsOf_fixed fixed] at starts
      have start := Option.some.inj starts
      have room := sound.2
      rw [← start] at room
      refine ⟨⟨b.bytes, fun i => i * getColumnTypeSize c.type, none⟩, rowIds,
        (baseOf_bare rfl rfl).mpr ⟨fixed, d, data, atData, room, rfl⟩, ids', ?_⟩
      apply List.map_congr_left
      intro i member
      have bit : maskBit b.mask i = true := by
        by_contra null
        refine valid (List.mem_map.mpr ⟨i, member, ?_⟩)
        simp [Base.entry, null]
      rw [Base.entry, if_pos bit, Base.bits, ← start]
      rfl

end Views

section Runs

variable {op : Operator} {x : Sunk} {stored stored' : Stored} {s s' : State}
  {relation : GPUIntermediateRelation} {before : List Sunk} {width : Nat}

theorem columnAt_ok {i : Nat} {c : GPUColumn} (run : columnAt relation i s = (.ok c, s')) :
    relation[i]? = some c := by
  unfold columnAt at run
  cases found : relation[i]? with
  | none =>
    rw [found] at run
    cases run
  | some d =>
    rw [found] at run
    cases run
    rfl

theorem buildSide_columns {j : HashJoin} {uniqueBuildKeys : Bool} {keys : List GPUColumn}
    {built : BuildSide} (run : buildSide j uniqueBuildKeys relation keys s = (.ok built, s')) :
    List.Forall₂ (fun i c => relation[i]? = some c) (j.keyColumns ++ j.payloadColumns)
      built.columns := by
  unfold buildSide at run
  cases first : keys.head? with
  | none =>
    rw [first] at run
    cases run
  | some key =>
    rw [first] at run
    obtain ⟨hashTable, s₁, -, run⟩ := Proc.bind_inv run
    obtain ⟨_, s₂, -, run⟩ := Proc.bind_inv run
    obtain ⟨_, s₃, -, run⟩ := Proc.bind_inv run
    obtain ⟨columns, s₄, read, last⟩ := Proc.bind_inv run
    cases last
    exact (Proc.collect_inv read).imp fun i c ⟨_, _, step⟩ => columnAt_ok step

theorem hashJoinSink_columns {j : HashJoin} {uniqueBuildKeys : Bool} {built : BuildSide}
    (run : hashJoinSink j uniqueBuildKeys relation s = (.ok built, s')) :
    List.Forall₂ (fun i c => relation[i]? = some c) (j.keyColumns ++ j.payloadColumns)
      built.columns := by
  unfold hashJoinSink at run
  split at run
  · cases run
  · obtain ⟨keys, s₁, -, run⟩ := Proc.bind_inv run
    exact buildSide_columns run

theorem forall₂_range {α β : Type} {R : β → Nat → Prop} {f : α → β} {l : List α}
    (each : ∀ i a, l[i]? = some a → R (f a) i) :
    List.Forall₂ R (l.map f) (List.range l.length) := by
  apply List.forall₂_iff_get.mpr
  refine ⟨by simp, fun i inside inside' => ?_⟩
  have there : i < l.length := by simpa using inside
  simpa using each i l[i] (List.getElem?_eq_getElem there)

/-- What is scanned are the views of the columns passed. -/
theorem sink_scan (run : op.sink stored relation s = (.ok stored', s')) :
    List.Forall₂ (fun c i => ∃ d, relation[i]? = some d ∧ c = Operator.view d op)
      (op.scan stored') (Operator.passed relation.length op) := by
  cases op with
  | cte =>
    obtain ⟨columns, s₁, made, last⟩ := Proc.bind_inv run
    cases last
    have copies : columns = relation.map GPUColumn.copied := by
      have steps := Proc.collect_inv made
      apply List.ext_getElem
      · rw [List.length_map, ← steps.length_eq]
      · intro i inside inside'
        have there : i < relation.length := by simpa using inside'
        obtain ⟨s₂, s₃, step⟩ := steps.get there inside
        obtain ⟨_, s₄, -, step⟩ := Proc.bind_inv step
        obtain ⟨_, s₅, -, step⟩ := Proc.bind_inv step
        rw [List.getElem_map]
        dsimp only at step
        split at step
        · obtain ⟨_, s₆, -, step⟩ := Proc.bind_inv step
          exact (congrArg (fun r => r.1.toOption) step |> Option.some.inj).symm
        · exact (congrArg (fun r => r.1.toOption) step |> Option.some.inj).symm
    change List.Forall₂ _ (columns.map GPUColumn.copied) _
    rw [copies, List.map_map]
    exact forall₂_range fun i d found => ⟨d, found, rfl⟩
  | leftDelimJoin groups getGroups =>
    obtain ⟨distinct, s₁, -, last⟩ := Proc.bind_inv run
    cases last
    exact forall₂_range fun i d found => ⟨d, found, rfl⟩
  | nestedLoopJoin =>
    cases run
    exact forall₂_range fun i d found => ⟨d, found, rfl⟩
  | hashJoin j =>
    obtain ⟨built, s₁, made, last⟩ := Proc.bind_inv run
    cases last
    refine List.Forall₂.flip ((hashJoinSink_columns made).imp fun i c found => ?_)
    exact ⟨c, found, rfl⟩

/-- The sinks of an operator, each in the memory its pipeline has left. What the distinct of a
delim join keeps is its own. -/
inductive Sinks (op : Operator) (width : Nat) : List Sunk → Stored → State → Prop
  | first {x : Sunk} {stored : Stored} {s : State} (columns : x.relation.length = width)
    (run : op.sink op.initial x.relation x.memory = (.ok stored, s)) :
    Sinks op width [x] stored s
  | next {before : List Sunk} {x : Sunk} {stored stored' : Stored} {s s' : State}
    (sinks : Sinks op width before stored s) (columns : x.relation.length = width)
    (apart : Apart stored x.relation)
    (run : op.sink stored x.relation x.memory = (.ok stored', s')) :
    Sinks op width (before ++ [x]) stored' s'

/-- The rows of a column from all sinks, one after another. -/
def allRows (sunk : List Sunk) (i : Nat) : List (Option Bytes) := sunk.flatMap fun x => x.value i

def total (sunk : List Sunk) : Nat := (sunk.map Sunk.rows).sum

/-- The columns that count the rows of what is read: of a build side, the first key. -/
def Operator.counting (scanned : GPUIntermediateRelation) : Operator → GPUIntermediateRelation
  | .hashJoin _ => scanned.take 1
  | _ => scanned

/-- What is scanned has the rows of all that was sunk. -/
structure Preserves (op : Operator) (width : Nat) (sunk : List Sunk) (stored : Stored)
    (s : State) : Prop where
  columns : List.Forall₂ (fun c i => Reads s (total sunk) c (allRows sunk i)) (op.scan stored)
    (Operator.passed width op)
  counted : total sunk ≠ 0 →
    ∃ c ∈ Operator.counting (op.scan stored) op, c.dataWrapper.data ≠ none

/-- How a column of the last relation that has data keeps the rows of all sinks. The scans read
what stands in the data. The joins read its row ids, too: the earlier relations must have no rows,
and there may be no strings and no NULLs in the one join, no buffers freed for the keys in the
other. -/
def Kept (op : Operator) (before : List Sunk) (x : Sunk) (i : Nat) (c : GPUColumn) : Prop :=
  match op with
  | .cte => InBuffer x.memory c (allRows (before ++ [x]) i)
  | .leftDelimJoin _ _ => InBuffer x.memory c (allRows (before ++ [x]) i) ∧
      (allRows (before ++ [x]) i ≠ [] →
        ∀ d ∈ c.dataWrapper.data, ¬ Freed op x.memory x.relation d)
  | .nestedLoopJoin => (∀ y ∈ before, y.rows = 0) ∧
      (x.rows ≠ 0 → c.type ≠ .varchar ∧ none ∉ x.value i)
  | .hashJoin _ => (∀ y ∈ before, y.rows = 0) ∧
      (x.rows ≠ 0 → ∀ h ∈ reads c, ¬ Freed op x.memory x.relation h)

/-- A column without data keeps only NULLs. -/
def Intact (op : Operator) (before : List Sunk) (x : Sunk) (i : Nat) (c : GPUColumn) : Prop :=
  if c.dataWrapper.data = none then ∀ y ∈ before, ∀ v ∈ y.value i, v = none
  else Kept op before x i c

/-- The keys a hash join needs data of: the first for the number of rows, and each for the
kernel that builds the table, which the INNER join does without. -/
def countedKeys (j : HashJoin) : List Nat :=
  if j.joinType = .inner then j.keyColumns.take 1 else j.keyColumns

/-- Rows are counted by columns of the last relation that have data. -/
def Counted (op : Operator) (sunk : List Sunk) (x : Sunk) : Prop :=
  total sunk ≠ 0 → match op with
    | .hashJoin j => ∀ i ∈ countedKeys j, ∀ c ∈ x.relation[i]?, c.dataWrapper.data ≠ none
    | _ => ∃ c ∈ x.relation, c.dataWrapper.data ≠ none

theorem combine_length {column₁ column₂ c : GPUColumn} {a b : Handle}
    (run : combine column₁ column₂ a b s = (.ok c, s')) :
    c.columnLength = column₁.columnLength + column₂.columnLength := by
  have fixed {width : Nat}
      (run : resolveTypeCombineColumns width column₁ column₂ a b s = (.ok c, s')) :
      c.columnLength = column₁.columnLength + column₂.columnLength := by
    obtain ⟨_, s₁, -, last⟩ := Proc.bind_inv run
    cases last
    rfl
  unfold combine at run
  cases type : column₁.type with
  | int32 | int64 | float64 =>
    rw [type] at run
    exact fixed run
  | varchar =>
    rw [type] at run
    obtain ⟨⟨_, _⟩, s₁, -, last⟩ := Proc.bind_inv run
    cases last
    rfl
  | _ =>
    rw [type] at run
    cases run

theorem mergeResult_empty {result merged : Option GPUColumn} {column : GPUColumn}
    (none : ∀ r ∈ result, r.columnLength = 0) (empty : column.columnLength = 0)
    (run : mergeResult (result, column) s = (.ok merged, s')) :
    ∀ g ∈ merged, g.columnLength = 0 := by
  cases result with
  | none =>
    cases run
    rintro g ⟨⟩
    exact empty
  | some r =>
    have length := none r rfl
    cases first : r.dataWrapper.data with
    | none =>
      cases second : column.dataWrapper.data with
      | none =>
        simp only [mergeResult, first, second] at run
        cases run
        rintro g ⟨⟩
        exact length
      | some b =>
        simp only [mergeResult, first, second] at run
        cases run
        rintro g ⟨⟩
        exact empty
    | some a =>
      cases second : column.dataWrapper.data with
      | none =>
        simp only [mergeResult, first, second] at run
        cases run
        rintro g ⟨⟩
        exact length
      | some b =>
        simp only [mergeResult, first, second] at run
        obtain ⟨combined, s₁, made, last⟩ := Proc.bind_inv run
        cases last
        rintro g ⟨⟩
        rw [combine_length made, length, empty]

theorem eliminateDuplicates_empty {getGroups : State → List GPUColumn → List CudfColumn}
    {keys distinct : List GPUColumn} (empty : ∀ key ∈ keys, key.columnLength = 0)
    (run : eliminateDuplicates getGroups relation keys s = (.ok distinct, s')) :
    ∀ c ∈ distinct, c.columnLength = 0 := by
  unfold eliminateDuplicates at run
  split at run
  · cases run
    exact empty
  · cases keys with
    | nil => cases run
    | cons key rest =>
      have first : key.columnLength = 0 := empty key List.mem_cons_self
      simp only [List.head?_cons, first, cudfDuplicateElimination, Option.map_some] at run
      cases run
      intro c member
      obtain ⟨key, -, rfl⟩ := List.mem_map.mp member
      split <;> rfl

theorem initial_unfilled (op : Operator) : Unfilled op.initial := by
  intro r member g hg
  cases op <;> simp [Operator.initial] at member
  obtain ⟨-, rfl⟩ := member
  cases hg

theorem sink_unfilled (unfilled : Unfilled stored)
    (empty : ∀ c ∈ relation, isEmptyColumn c = true)
    (run : op.sink stored relation s = (.ok stored', s')) : Unfilled stored' := by
  cases op with
  | cte =>
    obtain ⟨columns, s₁, -, last⟩ := Proc.bind_inv run
    cases last
    exact unfilled
  | nestedLoopJoin =>
    cases run
    exact unfilled
  | hashJoin j =>
    obtain ⟨built, s₁, -, last⟩ := Proc.bind_inv run
    cases last
    exact unfilled
  | leftDelimJoin groups getGroups =>
    obtain ⟨merged, s₁, sunk, last⟩ := Proc.bind_inv run
    cases last
    obtain ⟨keys, s₂, made, sunk⟩ := Proc.bind_inv sunk
    obtain ⟨distinct, s₃, eliminated, sunk⟩ := Proc.bind_inv sunk
    have lengths := eliminateDuplicates_empty (materializeKeys_empty empty made) eliminated
    have steps := Proc.collect_inv sunk
    intro r member g hg
    obtain ⟨k, inside, rfl⟩ := List.getElem_of_mem member
    obtain ⟨s₄, s₅, step⟩ := steps.get (by rwa [steps.length_eq]) inside
    obtain ⟨before, now⟩ := List.of_mem_zip (List.getElem_mem (by rwa [steps.length_eq] : k < _))
    exact mergeResult_empty (unfilled _ before) (lengths _ now) step g hg

theorem Sinks.unfilled {sunk : List Sunk} (sinks : Sinks op width sunk stored s)
    (none : ∀ y ∈ sunk, y.rows = 0) : Unfilled stored := by
  induction sinks with
  | first columns run =>
    exact sink_unfilled (initial_unfilled op) (Sunk.empty _ (none _ List.mem_cons_self)) run
  | @next before x stored stored' s s' sinks columns apart run ih =>
    have rest := List.forall_mem_append.mp none
    exact sink_unfilled (ih rest.1) (x.empty (rest.2 x List.mem_cons_self)) run

theorem Sinks.last (sinks : Sinks op width (before ++ [x]) stored' s') :
    x.relation.length = width ∧ ∃ stored, ((∀ y ∈ before, y.rows = 0) → Unfilled stored) ∧
      Apart stored x.relation ∧
      op.sink stored x.relation x.memory = (.ok stored', s') ∧
      ∀ y ∈ before, y.relation.length = width := by
  generalize all : before ++ [x] = sunk at sinks
  induction sinks generalizing before x with
  | @first y stored s columns run =>
    obtain ⟨rfl, rfl⟩ : before = [] ∧ x = y := by
      cases before with
      | nil => simpa using all
      | cons z rest => simp at all
    refine ⟨columns, op.initial, fun _ => initial_unfilled op, ?_, run, by simp⟩
    intro r member g hg
    cases op <;> simp [Operator.initial] at member
    obtain ⟨-, rfl⟩ := member
    cases hg
  | @next before' y stored stored' s s' sinks columns apart run ih =>
    obtain ⟨rfl, rfl⟩ : before = before' ∧ x = y := by simpa using all
    refine ⟨columns, stored, sinks.unfilled, apart, run, ?_⟩
    intro z member
    rcases List.eq_nil_or_concat' before with rfl | ⟨rest, w, rfl⟩
    · cases member
    · have earlier := ih rfl
      rcases List.mem_append.mp member with member | member
      · exact earlier.2.choose_spec.2.2.2 z member
      · rw [List.mem_singleton.mp member]
        exact earlier.1

theorem allRows_append (before : List Sunk) (x : Sunk) (i : Nat) :
    allRows (before ++ [x]) i = allRows before i ++ x.value i := by
  simp [allRows]

theorem total_append (before : List Sunk) (x : Sunk) :
    total (before ++ [x]) = total before + x.rows := by
  simp [total]

theorem total_eq_zero_iff : total before = 0 ↔ ∀ y ∈ before, y.rows = 0 := by
  induction before with
  | nil => simp [total]
  | cons y rest ih => simp_all [total]

theorem allRows_length {i : Nat} (columns : ∀ y ∈ before, i < y.relation.length) :
    (allRows before i).length = total before := by
  rw [allRows, total, List.length_flatMap]
  apply congrArg List.sum
  apply List.map_congr_left
  exact fun y member => y.length (List.getElem?_eq_getElem (columns y member))

/-- The rows of all sinks are those of the last one if the earlier ones have none. -/
theorem allRows_eq_iff {i : Nat} (columns : ∀ y ∈ before, i < y.relation.length) :
    allRows (before ++ [x]) i = x.value i ↔ ∀ y ∈ before, y.rows = 0 := by
  rw [allRows_append, List.append_left_eq_self, ← List.length_eq_zero_iff,
    allRows_length columns, total_eq_zero_iff]

/-- A join reads a column's rows: they can be those of all sinks only if there are no others. -/
theorem view_rows {i : Nat} {c : GPUColumn} (found : x.relation[i]? = some c)
    (data : c.dataWrapper.data ≠ none) (count : (Operator.view c op).rowCount = c.rowCount)
    (columns : ∀ y ∈ before, i < y.relation.length) {values : List (Option Bytes)}
    (content : logical s (Operator.view c op) = some values)
    (all : values = allRows (before ++ [x]) i) : ∀ y ∈ before, y.rows = 0 := by
  have length := logical_length content
  rw [count, all, allRows_append, List.length_append, x.length found,
    x.rowCount (List.mem_of_getElem? found) data, allRows_length columns] at length
  exact total_eq_zero_iff.mp (by omega)

theorem kept_iff {i : Nat} {c : GPUColumn} (found : x.relation[i]? = some c)
    (data : c.dataWrapper.data ≠ none) (columns : ∀ y ∈ before, i < y.relation.length) :
    (logical x.memory (Operator.view c op) = some (allRows (before ++ [x]) i) ∧
      (allRows (before ++ [x]) i ≠ [] →
        ∀ h ∈ reads (Operator.view c op), ¬ Freed op x.memory x.relation h)) ↔
      Kept op before x i c := by
  have content := (x.content i c found).content data
  have some : x.value i ≠ [] ↔ x.rows ≠ 0 := by
    rw [← x.length found, ne_eq, ne_eq, List.length_eq_zero_iff]
  have unfreed : Operator.keys op = [] → ∀ h, ¬ Freed op x.memory x.relation h := by
    rintro none h ⟨-, j, member, -⟩
    rw [none] at member
    cases member
  cases op with
  | cte =>
    have view : logical x.memory (Operator.view c .cte) = Option.some (allRows (before ++ [x]) i) ↔
      InBuffer x.memory c (allRows (before ++ [x]) i) := copied_iff
    rw [view]
    exact and_iff_left fun _ h _ => unfreed rfl h
  | leftDelimJoin groups getGroups =>
    have view : logical x.memory (Operator.view c (.leftDelimJoin groups getGroups)) =
      Option.some (allRows (before ++ [x]) i) ↔
      InBuffer x.memory c (allRows (before ++ [x]) i) := copied_iff
    rw [view, reads_view]
    simp only [Kept, Option.mem_toList, Option.mem_def]
  | nestedLoopJoin =>
    constructor
    · rintro ⟨kept, -⟩
      have none := view_rows found data rfl columns kept rfl
      rw [(allRows_eq_iff columns).mpr none] at kept
      exact ⟨none, fun rows => (unmasked_iff content).mp kept (some.mpr rows)⟩
    · rintro ⟨none, plain⟩
      rw [(allRows_eq_iff columns).mpr none]
      exact ⟨(unmasked_iff content).mpr fun values => plain (some.mp values),
        fun _ h _ => unfreed rfl h⟩
  | hashJoin j =>
    constructor
    · rintro ⟨kept, unfreed⟩
      have none := view_rows found data rfl columns kept rfl
      rw [(allRows_eq_iff columns).mpr none] at unfreed
      exact ⟨none, fun rows => unfreed (some.mpr rows)⟩
    · rintro ⟨none, unfreed⟩
      rw [(allRows_eq_iff columns).mpr none]
      exact ⟨content, fun values => unfreed (some.mp values)⟩

theorem view_data (op : Operator) (c : GPUColumn) :
    (Operator.view c op).dataWrapper.data = c.dataWrapper.data := by
  cases op <;> rfl

/-- A kept column reads as the rows of all sinks exactly when it is intact. -/
theorem intact_iff {i : Nat} {c : GPUColumn} (apart : Apart stored x.relation)
    (quiet : Quiet op stored x.relation)
    (run : op.sink stored x.relation x.memory = (.ok stored', s'))
    (found : x.relation[i]? = some c) (columns : ∀ y ∈ before, i < y.relation.length) :
    Reads s' (total (before ++ [x])) (Operator.view c op) (allRows (before ++ [x]) i) ↔
      Intact op before x i c := by
  have length : (allRows (before ++ [x]) i).length = total (before ++ [x]) := by
    rw [allRows_append, List.length_append, allRows_length columns, x.length found, total_append]
  have last := x.content i c found
  by_cases data : c.dataWrapper.data = none
  · have nulls : (∀ v ∈ allRows (before ++ [x]) i, v = none) ↔
        ∀ y ∈ before, ∀ v ∈ y.value i, v = none := by
      rw [allRows_append, List.forall_mem_append, and_iff_left (last.null data)]
      simp only [allRows, List.mem_flatMap]
      constructor
      · exact fun null y member v inside => null v ⟨y, member, inside⟩
      · rintro null v ⟨y, member, inside⟩
        exact null y member v inside
    rw [Intact, if_pos data, ← nulls]
    constructor
    · exact fun read => read.null ((view_data op c).trans data)
    · exact fun null => ⟨length, fun _ => null, fun some =>
        absurd ((view_data op c).trans data) some⟩
  · rw [Intact, if_neg data, ← kept_iff found data columns,
      ← x.view_iff apart quiet run (List.mem_of_getElem? found)]
    constructor
    · exact fun read => read.content (by rwa [view_data])
    · exact fun kept => ⟨length, fun missing => absurd ((view_data op c).symm.trans missing) data,
        fun _ => kept⟩

theorem buildHashTable_keys {keys : List (Option Handle)} {htLen n : Nat}
    (run : buildHashTable keys htLen n s = (.ok (), s')) (rows : n ≠ 0) (room : htLen ≠ 0) :
    none ∉ keys := by
  rw [buildHashTable, if_neg (by simp [rows, room])] at run
  obtain ⟨keysDev, s₁, -, run⟩ := Proc.bind_inv run
  obtain ⟨_, s₂, read, -⟩ := Proc.bind_inv run
  intro missing
  obtain ⟨s₃, s₄, step⟩ := Proc.each_inv read none missing
  cases step

theorem handleBuildExpression_keys {j : HashJoin} {keys : List GPUColumn} {key : GPUColumn}
    {htLen : Nat} (run : handleBuildExpression j keys key htLen s = (.ok (), s'))
    (rows : key.columnLength ≠ 0) (room : htLen ≠ 0) :
    ∀ k ∈ keys, k.dataWrapper.data ≠ none := by
  have resolved : resolveTypeBuildExpression j keys htLen key.columnLength s = (.ok (), s') := by
    unfold handleBuildExpression at run
    cases type : key.type with
    | int32 | int64 | float64 =>
      rw [type] at run
      exact run
    | _ =>
      rw [type] at run
      cases run
  obtain ⟨modes, s₁, -, built⟩ := Proc.bind_inv resolved
  have table : buildHashTable (keys.map fun key => key.dataWrapper.data) htLen
      key.columnLength s₁ = (.ok (), s') := by
    cases type : j.joinType with
    | inner | semi | mark | right | rightSemi | rightAnti =>
      rw [type] at built
      exact built
    | _ =>
      rw [type] at built
      cases built
  intro k member missing
  exact buildHashTable_keys table rows room (List.mem_map.mpr ⟨k, member, missing⟩)

/-- A hash join that has returned has a first key, and where that has rows no join but the INNER
one has a key without data. -/
theorem hashJoinSink_keys {j : HashJoin} {uniqueBuildKeys : Bool} {built : BuildSide}
    (run : hashJoinSink j uniqueBuildKeys relation s = (.ok built, s')) :
    ∃ i rest c, j.keyColumns = i :: rest ∧ relation[i]? = some c ∧
      (j.joinType ≠ .inner → isEmptyColumn c = false → c.rowCount ≠ 0 →
        ∀ k ∈ j.keyColumns, ∀ d ∈ relation[k]?, d.dataWrapper.data ≠ none) := by
  unfold hashJoinSink at run
  split at run
  · cases run
  obtain ⟨keys, s₁, made, sides⟩ := Proc.bind_inv run
  have steps := Proc.collect_inv made
  cases keys with
  | nil => cases sides
  | cons key later =>
    obtain ⟨i, rest, ⟨s₂, s₃, step⟩, -, columns⟩ := List.forall₂_cons_right_iff.mp steps
    cases found : relation[i]? with
    | none =>
      rw [materializeAt_none found] at step
      cases step
    | some c =>
      refine ⟨i, rest, c, columns, found, ?_⟩
      intro outer some rows
      rw [materializeAt_some found] at step
      have count := handleMaterializeExpression_rows some step
      have nonzero : key.columnLength ≠ 0 := by rwa [count]
      obtain ⟨hashTable, s₄, -, sides⟩ := Proc.bind_inv sides
      obtain ⟨_, s₅, building, -⟩ := Proc.bind_inv sides
      rw [buildUnlessInner, if_neg outer] at building
      have data := handleBuildExpression_keys building nonzero (by omega)
      intro k member d there missing
      obtain ⟨m, inside, rfl⟩ := List.getElem_of_mem member
      have bound : m < (key :: later).length := by rwa [← steps.length_eq]
      obtain ⟨s₆, s₇, step⟩ := steps.get inside bound
      rw [List.get_eq_getElem, materializeAt_some (Option.mem_def.mp there)] at step
      have empty : isEmptyColumn d = true := by simp [isEmptyColumn, missing]
      exact data _ (List.getElem_mem bound) (handleMaterializeExpression_empty empty step).2.1

/-- What holds of all that is scanned holds of the views of the columns passed. -/
theorem forall₂_views {R : GPUColumn → Nat → Prop} {scan : List GPUColumn} {passed : List Nat}
    (scanned : List.Forall₂ (fun c i => ∃ d, relation[i]? = some d ∧ c = Operator.view d op)
      scan passed) :
    List.Forall₂ R scan passed ↔ ∀ i ∈ passed, ∀ c ∈ relation[i]?, R (Operator.view c op) i := by
  induction scanned with
  | nil => simp
  | cons first _ ih =>
    obtain ⟨d, found, rfl⟩ := first
    rw [List.forall₂_cons, ih, List.forall_mem_cons, found]
    simp

theorem exists_views {P : GPUColumn → Prop} {scan : List GPUColumn} {passed : List Nat}
    (scanned : List.Forall₂ (fun c i => ∃ d, relation[i]? = some d ∧ c = Operator.view d op)
      scan passed) :
    (∃ c ∈ scan, P c) ↔ ∃ i ∈ passed, ∃ c, relation[i]? = some c ∧ P (Operator.view c op) := by
  induction scanned with
  | nil => simp
  | cons first _ ih =>
    obtain ⟨d, found, rfl⟩ := first
    rw [List.exists_mem_cons_iff, ih, List.exists_mem_cons_iff, found]
    simp

theorem alone_of_length {i : Nat} {c : GPUColumn} (found : x.relation[i]? = some c)
    (some : isEmptyColumn c = false) (direct : c.rowIds = none)
    (columns : ∀ y ∈ before, i < y.relation.length)
    (length : c.columnLength = (allRows (before ++ [x]) i).length) : ∀ y ∈ before, y.rows = 0 := by
  have data : c.dataWrapper.data ≠ none := by
    intro missing
    simp [isEmptyColumn, missing] at some
  have count := x.rowCount (List.mem_of_getElem? found) data
  rw [GPUColumn.rowCount, direct] at count
  rw [allRows_append, List.length_append, allRows_length columns, x.length found] at length
  dsimp only at count
  exact total_eq_zero_iff.mp (by omega)

/-- The distinct of a delim join frees no column that is kept. -/
theorem quiet_of (unfilled : (∀ y ∈ before, y.rows = 0) → Unfilled stored)
    (columns : ∀ i c, x.relation[i]? = some c → ∀ y ∈ before, i < y.relation.length)
    (lengths : ∀ groups getGroups, op = .leftDelimJoin groups getGroups →
      ∀ i c, x.relation[i]? = some c → c.dataWrapper.data ≠ none →
        c.columnLength = (allRows (before ++ [x]) i).length) : Quiet op stored x.relation := by
  cases op with
  | leftDelimJoin groups getGroups =>
    intro _
    by_cases none : ∀ y ∈ before, y.rows = 0
    · exact .inr (unfilled none)
    · refine .inl fun i _ c found => ?_
      by_contra passed
      have some : isEmptyColumn c = false := by simpa using fun empty => passed (.inl empty)
      have direct : c.rowIds = Option.none := by
        by_contra late
        exact passed (.inr late)
      have data : c.dataWrapper.data ≠ Option.none := by
        intro missing
        simp [isEmptyColumn, missing] at some
      exact none (alone_of_length found some direct (columns i c found)
        (lengths groups getGroups rfl i c found data))
  | _ => trivial

/-- A scan or a nested-loop join reads the rows by any column that has data. -/
theorem counted_scan_iff (run : op.sink stored x.relation x.memory = (.ok stored', s'))
    (every : Operator.passed x.relation.length op = List.range x.relation.length) :
    (∃ c ∈ op.scan stored', c.dataWrapper.data ≠ none) ↔
      ∃ c ∈ x.relation, c.dataWrapper.data ≠ none := by
  rw [exists_views (sink_scan run), every]
  simp only [view_data]
  constructor
  · rintro ⟨i, -, c, found, data⟩
    exact ⟨c, List.mem_of_getElem? found, data⟩
  · rintro ⟨c, member, data⟩
    obtain ⟨i, inside, rfl⟩ := List.getElem_of_mem member
    exact ⟨i, List.mem_range.mpr inside, _, List.getElem?_eq_getElem inside, data⟩

/-- A hash join reads the rows by its first key; a join that has returned has seen the data of
the keys it needs. -/
theorem counted_keys_iff {j : HashJoin}
    (run : Operator.sink (.hashJoin j) stored x.relation x.memory = (.ok stored', s'))
    (rows : total (before ++ [x]) ≠ 0)
    (intact : ∀ i ∈ Operator.passed x.relation.length (.hashJoin j), ∀ c ∈ x.relation[i]?,
      Intact (.hashJoin j) before x i c) :
    (∃ c ∈ stored'.columns.take 1, c.dataWrapper.data ≠ none) ↔
      ∀ i ∈ countedKeys j, ∀ c ∈ x.relation[i]?, c.dataWrapper.data ≠ none := by
  obtain ⟨built, s₁, made, last⟩ := Proc.bind_inv run
  cases last
  obtain ⟨i, rest, c, keys, found, others⟩ := hashJoinSink_keys made
  have columns := hashJoinSink_columns made
  rw [keys, List.cons_append] at columns
  obtain ⟨c', later, there, -, same⟩ := List.forall₂_cons_left_iff.mp columns
  obtain rfl : c' = c := Option.some.inj (there.symm.trans found)
  simp only [same, List.take_succ_cons, List.take_zero, List.mem_singleton, exists_eq_left]
  constructor
  · intro data
    have first : i ∈ Operator.passed x.relation.length (.hashJoin j) := by
      simp [Operator.passed, keys]
    have kept := intact i first c' found
    rw [Intact, if_neg data] at kept
    have member := List.mem_of_getElem? found
    have count : c'.rowCount ≠ 0 := by
      rw [x.rowCount member data]
      rwa [total_append, total_eq_zero_iff.mpr kept.1, Nat.zero_add] at rows
    intro k inside d held
    by_cases inner : j.joinType = .inner
    · rw [countedKeys, if_pos inner, keys] at inside
      obtain rfl : k = i := by simpa using inside
      obtain rfl : d = c' := Option.some.inj (Eq.symm held |>.trans found)
      exact data
    · rw [countedKeys, if_neg inner] at inside
      exact others inner (x.full member data count) count k inside d held
  · intro all
    refine all i ?_ c' found
    unfold countedKeys
    split <;> simp [keys]

end Runs

section Cached

/-- Three numbers and the row ids of a column of them, in the caching region. -/
def cachedNumbers : State where
  contents
    | .caching 0 => some (.bytes [7, 0, 8, 0, 9, 0])
    | .caching 1 => some (.words [2, 0, 2])
    | _ => none
  allocationTable := []
  lockedAllocationTable := []
  rmmStoredBuffers := []
  next := 0

theorem cachedNumbers_fresh : cachedNumbers.Fresh := by
  constructor
  · rintro h ⟨n, -, rfl⟩
    rfl
  · rintro h ⟨n, -, rfl⟩
    simp [State.Known, cachedNumbers]
  · simp [cachedNumbers]

theorem caching_old {s : State} (n : Nat) : ¬ s.New (.caching n) := by
  rintro ⟨m, -, same⟩
  cases same

/-- What a RIGHT join without matches gives from its probe side. -/
def matched : GPUIntermediateRelation :=
  [newColumn 0 .int64 none none, newColumn 0 .int16 none none]

/-- What it gives from its build side: the left column without data, the right one by row ids. -/
def unmatched : GPUIntermediateRelation :=
  [newColumn 0 .int64 none none,
    { newColumn 3 .int16 (some (.caching 0)) none with
      rowIds := some (.caching 1)
      rowIdCount := 3 }]

def unmatchedValue : Nat → List (Option Bytes)
  | 0 => [none, none, none]
  | _ => [some [9, 0], some [7, 0], some [9, 0]]

def matchedSunk : Sunk where
  memory := cachedNumbers
  relation := matched
  rows := 0
  value := fun _ => []
  fresh := cachedNumbers_fresh
  content := by
    intro i c found
    refine ⟨rfl, by simp, fun data => absurd ?_ data⟩
    have member : c ∈ matched := List.mem_of_getElem? found
    have either : c = newColumn 0 .int64 none none ∨ c = newColumn 0 .int16 none none := by
      simpa [matched] using member
    rcases either with rfl | rfl <;> rfl
  counted := fun rows => absurd rfl rows
  old := by simp [matched, reads, GPUColumn.buffers, newColumn]

def unmatchedSunk : Sunk where
  memory := cachedNumbers
  relation := unmatched
  rows := 3
  value := unmatchedValue
  fresh := cachedNumbers_fresh
  content := by
    intro i c found
    match i with
    | 0 =>
      obtain rfl := Option.some.inj found
      exact ⟨rfl, fun _ => by decide, fun data => absurd rfl data⟩
    | 1 =>
      obtain rfl := Option.some.inj found
      exact ⟨rfl, fun missing => (by cases missing), fun _ => by decide⟩
    | i + 2 => cases found
  counted := fun _ => ⟨_, List.mem_cons_of_mem _ List.mem_cons_self, by decide⟩
  old := by
    intro c member h read
    have either : h = .caching 0 ∨ h = .caching 1 := by
      have cases : c = unmatched[0] ∨ c = unmatched[1] := by simpa [unmatched] using member
      rcases cases with rfl | rfl
      · simp [unmatched, reads, GPUColumn.buffers, newColumn] at read
      · simpa [unmatched, reads, GPUColumn.buffers, newColumn, GPUColumn.type] using read
    rcases either with rfl | rfl
    · exact caching_old 0
    · exact caching_old 1

def unmatchedStored : Stored := ⟨nestedLoopJoinSink unmatched, [], false⟩

theorem unmatched_sinks : Sinks .nestedLoopJoin 2 ([matchedSunk] ++ [unmatchedSunk])
    unmatchedStored cachedNumbers := by
  refine .next (.first rfl rfl) rfl ?_ rfl
  intro r member
  cases member

/-- The characters and the offsets of a string column, in the caching region. -/
def cachedText : State where
  contents
    | .caching 0 => some (.bytes [104, 105])
    | .caching 1 => some (.words [0, 2])
    | _ => none
  allocationTable := []
  lockedAllocationTable := []
  rmmStoredBuffers := []
  next := 0

theorem cachedText_fresh : cachedText.Fresh := by
  constructor
  · rintro h ⟨n, -, rfl⟩
    rfl
  · rintro h ⟨n, -, rfl⟩
    simp [State.Known, cachedText]
  · simp [cachedText]

def textColumn : GPUColumn :=
  newStringColumn 1 .varchar (some (.caching 0)) (some (.caching 1)) 2 true none

def textSunk : Sunk where
  memory := cachedText
  relation := [textColumn]
  rows := 1
  value := fun _ => [some [104, 105]]
  fresh := cachedText_fresh
  content := by
    intro i c found
    obtain rfl : c = textColumn := by
      simpa using (List.mem_of_getElem? found : c ∈ [textColumn])
    exact ⟨rfl, fun missing => (by cases missing), fun _ => by decide⟩
  counted := fun _ => ⟨_, List.mem_cons_self, by decide⟩
  old := by
    intro c member h read
    obtain rfl : c = textColumn := by simpa using member
    have either : h = .caching 0 ∨ h = .caching 1 := by
      simpa [reads, textColumn, newStringColumn, GPUColumn.buffers, GPUColumn.type] using read
    rcases either with rfl | rfl
    · exact caching_old 0
    · exact caching_old 1

def textStored : Stored := ⟨[GPUColumn.copied textColumn], [], false⟩

end Cached

end BufferedRows
