import SiriusGpu.BlockCompaction

/-!
# Places handed over in an array

A first pass reserves the places of each block and leaves in an array where the values of each
thread begin; a second pass reads the places there and writes the values. Several threads may have
one entry of the array, and then the last store to it counts.
-/

namespace OffsetArrays

open BlockCompaction

universe u
variable {α : Type u}

section Passes

variable (threads blocks : Nat) (values : Nat → Nat → List α) (kept : Nat → Nat → Bool)
  (index : Nat → Nat → Nat)

/-- The first places of the threads that have an entry, and where they are left. -/
def handed (order : List Nat) : List (Nat × Nat) :=
  (atomicAdds (fun block => exclusiveSum (values block) threads) 0 order).flatMap fun start =>
    ((List.range threads).filter (kept start.1)).map fun t =>
      (start.2 + exclusiveSum (values start.1) t, index start.1 t)

/-- What the threads write from the places they read. -/
def written (memory : Nat → Option Nat) : List (α × Nat) :=
  (List.range blocks).flatMap fun block => (List.range threads).flatMap fun t =>
    (values block t).zipIdx (if kept block t then (memory (index block t)).getD 0 else 0)

/-- No other thread has the entry of a thread with values. -/
def Unshared : Prop :=
  ∀ block < blocks, ∀ t < threads, values block t ≠ [] →
    ∀ block' < blocks, ∀ t' < threads, kept block' t' = true →
      index block t = index block' t' → block = block' ∧ t = t'

/-- The threads with values have an entry, and the threads of a block have different ones. -/
structure Arranged : Prop where
  kept : ∀ block < blocks, ∀ t < threads, values block t ≠ [] → kept block t = true
  apart : ∀ block, ∀ t < threads, ∀ t' < threads, index block t = index block t' → t = t'

end Passes

section Reading

variable {threads blocks : Nat} {values : Nat → Nat → List α} {kept : Nat → Nat → Bool}
  {index : Nat → Nat → Nat} {order : List Nat} {stores : List (Nat × Nat)}

theorem atomicAdds_map_fst (f : Nat → Nat) (start : Nat) (order : List Nat) :
    (atomicAdds f start order).map Prod.fst = order := by
  induction order generalizing start with
  | nil => rfl
  | cons block rest ih => rw [atomicAdds, List.map_cons, ih]

theorem atomicAdds_fst {f : Nat → Nat} {order : List Nat} {start : Nat} {x : Nat × Nat}
    (member : x ∈ atomicAdds f start order) : x.1 ∈ order := by
  rw [← atomicAdds_map_fst f start order]
  exact List.mem_map_of_mem member

theorem mem_handed {store : Nat × Nat} : store ∈ handed threads values kept index order ↔
    ∃ start ∈ atomicAdds (fun block => exclusiveSum (values block) threads) 0 order,
      ∃ t < threads, kept start.1 t = true ∧
        store = (start.2 + exclusiveSum (values start.1) t, index start.1 t) := by
  simp only [handed, List.mem_flatMap, List.mem_map, List.mem_filter, List.mem_range, and_assoc,
    @eq_comm _ store]

/-- A thread with an entry of its own reads what it has left there. -/
theorem perform_handed (arranged : Arranged threads blocks values kept index)
    (unshared : Unshared threads blocks values kept index)
    (all : order.Perm (List.range blocks))
    (shuffled : stores.Perm (handed threads values kept index order)) {start : Nat × Nat} {t : Nat}
    (member : start ∈ atomicAdds (fun block => exclusiveSum (values block) threads) 0 order)
    (inside : t < threads) (some : values start.1 t ≠ []) :
    perform stores (index start.1 t) = .some (start.2 + exclusiveSum (values start.1) t) := by
  have known {start : Nat × Nat}
      (member : start ∈ atomicAdds (fun block => exclusiveSum (values block) threads) 0 order) :
      start.1 < blocks := List.mem_range.mp (all.mem_iff.mp (atomicAdds_fst member))
  have here := arranged.kept _ (known member) t inside some
  have made := shuffled.mem_iff.mpr (mem_handed.mpr ⟨start, member, t, inside, here, rfl⟩)
  obtain ⟨value, last⟩ := Option.ne_none_iff_exists'.mp (perform_ne_none made)
  obtain ⟨other, member', t', inside', here', same⟩ :=
    mem_handed.mp (shuffled.mem_iff.mp (mem_of_perform last))
  obtain ⟨rfl, entry⟩ := Prod.mk.injEq .. ▸ same
  obtain ⟨block, rfl⟩ :=
    unshared _ (known member) t inside some _ (known member') t' inside' here' entry
  have distinct : ((atomicAdds (fun block => exclusiveSum (values block) threads) 0
      order).map Prod.fst).Nodup := by
    rw [atomicAdds_map_fst]
    exact all.nodup_iff.mpr List.nodup_range
  rw [last, List.inj_on_of_nodup_map distinct member' member block.symm]

/-- With entries of their own the threads write at the places of the first pass. -/
theorem written_perm (arranged : Arranged threads blocks values kept index)
    (unshared : Unshared threads blocks values kept index)
    (all : order.Perm (List.range blocks))
    (shuffled : stores.Perm (handed threads values kept index order)) :
    (written threads blocks values kept index (perform stores)).Perm
      (gridWrites threads values order) := by
  refine (all.symm.flatMap_right _).trans (List.Perm.of_eq ?_)
  rw [gridWrites]
  conv_lhs =>
    rw [← atomicAdds_map_fst (fun block => exclusiveSum (values block) threads) 0 order,
      List.flatMap_map]
  refine List.flatMap_congr fun start member => ?_
  rw [blockWrites]
  refine List.flatMap_congr fun t inside => ?_
  have inside := List.mem_range.mp inside
  have known := List.mem_range.mp (all.mem_iff.mp (atomicAdds_fst member))
  by_cases some : values start.1 t = []
  · rw [some]
    rfl
  · rw [if_pos (arranged.kept _ known t inside some),
      perform_handed arranged unshared all shuffled member inside some, Option.getD_some]

/-- Whatever was read, all values are written. -/
theorem written_values (memory : Nat → Option Nat) :
    (written threads blocks values kept index memory).map Prod.fst =
      gathered threads values (List.range blocks) := by
  simp only [written, gathered, List.map_flatMap, List.zipIdx_map_fst]

theorem gathered_perm (all : order.Perm (List.range blocks)) :
    (gathered threads values order).Perm (gathered threads values (List.range blocks)) :=
  all.flatMap_right _

/-- With entries of their own the places are those below the number of values. -/
theorem written_places (arranged : Arranged threads blocks values kept index)
    (unshared : Unshared threads blocks values kept index)
    (all : order.Perm (List.range blocks))
    (shuffled : stores.Perm (handed threads values kept index order)) :
    ((written threads blocks values kept index (perform stores)).map Prod.snd).Perm
      (List.range (gathered threads values order).length) := by
  refine ((written_perm arranged unshared all shuffled).map _).trans (List.Perm.of_eq ?_)
  rw [gridWrites_eq, List.zipIdx_map_snd, ← List.range_eq_range']

end Reading

section Sharing

variable {threads blocks : Nat} {values : Nat → Nat → List α} {kept : Nat → Nat → Bool}
  {index : Nat → Nat → Nat} {block t block' t' : Nat}

/-- The sum of the places of some writes. -/
def placeSum (writes : List (α × Nat)) : Nat := (writes.map Prod.snd).sum

theorem placeSum_flatMap {β : Type} (l : List β) (writes : β → List (α × Nat)) :
    placeSum (l.flatMap writes) = (l.map fun b => placeSum (writes b)).sum := by
  induction l with
  | nil => rfl
  | cons b rest ih =>
    rw [placeSum] at ih ⊢
    rw [List.flatMap_cons, List.map_append, List.sum_append, ih]
    rfl

theorem placeSum_zipIdx (values : List α) (start : Nat) :
    placeSum (values.zipIdx start) = values.length * start + placeSum (values.zipIdx 0) := by
  induction values generalizing start with
  | nil => rw [List.length_nil, Nat.zero_mul]; rfl
  | cons value rest ih =>
    have cons (start : Nat) : placeSum ((value :: rest).zipIdx start) =
        start + placeSum (rest.zipIdx (start + 1)) := rfl
    rw [cons, cons, ih, ih 1, List.length_cons, Nat.succ_mul]
    ring

/-- Values at later places have a greater sum. -/
theorem placeSum_zipIdx_le (values : List α) {start start' : Nat} (before : start ≤ start') :
    placeSum (values.zipIdx start) ≤ placeSum (values.zipIdx start') := by
  rw [placeSum_zipIdx, placeSum_zipIdx values start']
  exact Nat.add_le_add_right (Nat.mul_le_mul_left _ before) _

theorem placeSum_zipIdx_lt {values : List α} (some : values ≠ []) {start start' : Nat}
    (before : start < start') :
    placeSum (values.zipIdx start) < placeSum (values.zipIdx start') := by
  rw [placeSum_zipIdx, placeSum_zipIdx values start']
  exact Nat.add_lt_add_right
    (Nat.mul_lt_mul_of_pos_left before (List.length_pos_iff.mpr some)) _

/-- The same writes with a greater place for some thread with values have a greater sum. -/
theorem placeSum_written_lt {memory memory' : Nat → Option Nat} (known : block < blocks)
    (inside : t < threads) (here : kept block t = true) (some : values block t ≠ [])
    (less : ∀ i, (memory i).getD 0 ≤ (memory' i).getD 0)
    (strict : (memory (index block t)).getD 0 < (memory' (index block t)).getD 0) :
    placeSum (written threads blocks values kept index memory) <
      placeSum (written threads blocks values kept index memory') := by
  have each (block t : Nat) : placeSum ((values block t).zipIdx
      (if kept block t then (memory (index block t)).getD 0 else 0)) ≤
        placeSum ((values block t).zipIdx
          (if kept block t then (memory' (index block t)).getD 0 else 0)) := by
    refine placeSum_zipIdx_le _ ?_
    split
    · exact less _
    · exact le_rfl
  rw [written, written, placeSum_flatMap, placeSum_flatMap]
  refine List.sum_lt_sum _ _ (fun b _ => ?_) ⟨block, List.mem_range.mpr known, ?_⟩
  · rw [placeSum_flatMap, placeSum_flatMap]
    exact List.sum_le_sum fun t _ => each b t
  · rw [placeSum_flatMap, placeSum_flatMap]
    refine List.sum_lt_sum _ _ (fun t _ => each block t) ⟨t, List.mem_range.mpr inside, ?_⟩
    rw [if_pos here, if_pos here]
    exact placeSum_zipIdx_lt some strict

/-- Of two blocks that take the first places the second one has the later places. -/
theorem first_blocks (known : block < blocks) (known' : block' < blocks)
    (differ : block ≠ block') (total : Nat → Nat) :
    ∃ order, order.Perm (List.range blocks) ∧ (block, 0) ∈ atomicAdds total 0 order ∧
      (block', total block) ∈ atomicAdds total 0 order := by
  refine ⟨block :: block' :: ((List.range blocks).erase block).erase block', ?_, ?_, ?_⟩
  · have member' : block' ∈ (List.range blocks).erase block :=
      (List.mem_erase_of_ne (Ne.symm differ)).mpr (List.mem_range.mpr known')
    exact ((List.perm_cons_erase member').symm.cons block).trans
      (List.perm_cons_erase (List.mem_range.mpr known)).symm
  · exact List.mem_cons_self
  · rw [atomicAdds, atomicAdds, Nat.zero_add]
    exact List.mem_cons_of_mem _ List.mem_cons_self

/-- The places of a thread lie before those of the threads after it. -/
theorem exclusiveSum_add_le (values : Nat → List α) (inside : t < threads) :
    exclusiveSum values t + (values t).length ≤ exclusiveSum values threads := by
  have split : List.range threads =
      List.range (t + 1) ++ (List.range (threads - (t + 1))).map (t + 1 + ·) := by
    rw [← List.range_add, Nat.add_sub_cancel' inside]
  rw [exclusiveSum, exclusiveSum, split, List.range_succ, List.map_append, List.map_append,
    List.sum_append, List.sum_append, List.map_singleton, List.sum_singleton]
  exact Nat.le_add_right _ _

/-- When the place of another thread may come last into the entry of a thread with values, it
makes a difference for the sum of all places which of the two does. -/
theorem unshared_of_places (arranged : Arranged threads blocks values kept index)
    (all : ∀ order stores, order.Perm (List.range blocks) →
      stores.Perm (handed threads values kept index order) →
        ((written threads blocks values kept index (perform stores)).map Prod.snd).Perm
          (List.range (gathered threads values order).length)) :
    Unshared threads blocks values kept index := by
  intro block known t inside some block' known' t' inside' here' same
  by_contra other
  have differ : block ≠ block' := by
    rintro rfl
    exact other ⟨rfl, arranged.apart block t inside t' inside' same⟩
  have here := arranged.kept block known t inside some
  obtain ⟨order, blocks, first, second⟩ := first_blocks known known' differ
    fun block => exclusiveSum (values block) threads
  obtain ⟨a, ha⟩ : ∃ a, a = (0 + exclusiveSum (values block) t, index block t) := ⟨_, rfl⟩
  obtain ⟨b, hb⟩ : ∃ b, b = (exclusiveSum (values block) threads +
    exclusiveSum (values block') t', index block t) := ⟨_, rfl⟩
  have made : a ∈ handed threads values kept index order :=
    mem_handed.mpr ⟨_, first, t, inside, here, ha⟩
  have made' : b ∈ handed threads values kept index order :=
    mem_handed.mpr ⟨_, second, t', inside', here', by rw [hb, same]⟩
  have less : a.1 < b.1 := by
    have room := exclusiveSum_add_le (values block) inside
    have length := List.length_pos_iff.mpr some
    rw [ha, hb]
    simp only
    omega
  have apart : b ≠ a := fun equal => absurd less (equal ▸ Nat.lt_irrefl _)
  obtain ⟨rest, split⟩ : ∃ rest, (handed threads values kept index order).Perm (a :: b :: rest) :=
    ⟨_, (List.perm_cons_erase made).trans
      ((List.perm_cons_erase ((List.mem_erase_of_ne apart).mpr made')).cons a)⟩
  have firstLast : (rest ++ [b] ++ [a]).Perm (handed threads values kept index order) := by
    refine List.Perm.trans ?_ split.symm
    rw [List.append_assoc]
    exact List.perm_append_comm.trans (List.Perm.swap a b rest)
  have secondLast : (rest ++ [a] ++ [b]).Perm (handed threads values kept index order) := by
    refine List.Perm.trans ?_ split.symm
    rw [List.append_assoc]
    exact List.perm_append_comm
  have right := (all order _ blocks firstLast).sum_eq
  have right' := (all order _ blocks secondLast).sum_eq
  have entry : a.2 = b.2 := by rw [ha, hb]
  have last (i : Nat) : perform (rest ++ [b] ++ [a]) i =
      if i = a.2 then .some a.1 else perform rest i := by
    rw [perform_append, perform_append, ← entry, Function.update_idem, Function.update_apply]
  have last' (i : Nat) : perform (rest ++ [a] ++ [b]) i =
      if i = a.2 then .some b.1 else perform rest i := by
    rw [perform_append, perform_append, ← entry, Function.update_idem, Function.update_apply]
  have own : index block t = a.2 := by rw [ha]
  refine absurd (right.trans right'.symm) (ne_of_lt ?_)
  refine placeSum_written_lt known inside here some (fun i => ?_) ?_
  · rw [last, last']
    split
    · exact less.le
    · exact le_rfl
  · rw [last, last', if_pos own, if_pos own]
    exact less

/-- The places are those below the number of values, in whatever order the blocks reserve theirs
and the threads leave them in the array, if and only if no thread with values shares its entry. -/
theorem places_iff (arranged : Arranged threads blocks values kept index) :
    (∀ order stores, order.Perm (List.range blocks) →
      stores.Perm (handed threads values kept index order) →
        ((written threads blocks values kept index (perform stores)).map Prod.snd).Perm
          (List.range (gathered threads values order).length)) ↔
      Unshared threads blocks values kept index :=
  ⟨unshared_of_places arranged, fun unshared _ _ blocks shuffled =>
    written_places arranged unshared blocks shuffled⟩

end Sharing

end OffsetArrays
