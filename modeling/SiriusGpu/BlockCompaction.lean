import Mathlib

/-!
# Compaction by blocks of threads

Every thread of a block selects some values. The block adds up the numbers of its
threads, reserves that many places of the output with one atomic addition, and
each thread writes its values after those of the threads before it. The blocks
reserve their places in any order, and the writes happen in any order.

The output holds every selected value once.
-/

namespace BlockCompaction

universe u
variable {α : Type u}

/-! ## Writes to distinct places -/

/-- The memory after the writes, in their order. -/
def perform (writes : List (α × Nat)) : Nat → Option α :=
  writes.foldl (fun memory write => Function.update memory write.2 (some write.1)) fun _ => none

theorem perform_append (writes : List (α × Nat)) (write : α × Nat) :
    perform (writes ++ [write]) = Function.update (perform writes) write.2 (some write.1) := by
  simp [perform]

theorem perform_eq_some (writes : List (α × Nat)) (distinct : (writes.map Prod.snd).Nodup)
    (a : α) (place : Nat) : perform writes place = some a ↔ (a, place) ∈ writes := by
  induction writes using List.reverseRecOn with
  | nil => simp [perform]
  | append_singleton writes write ih =>
      rw [List.map_append, List.nodup_append] at distinct
      have later := ih distinct.1
      rw [perform_append, List.mem_append, List.mem_singleton]
      by_cases same : place = write.2
      · subst same
        have fresh : (a, write.2) ∉ writes := by
          intro member
          exact distinct.2.2 write.2 (List.mem_map.mpr ⟨_, member, rfl⟩) write.2 (by simp) rfl
        simp [fresh, Prod.ext_iff, eq_comm]
      · have other : (a, place) ≠ write := fun h => same (congrArg Prod.snd h)
        simp [Function.update_of_ne same, later, other]

/-- The last write to a place is one of those made to it. -/
theorem mem_of_perform {writes : List (α × Nat)} {a : α} {place : Nat}
    (last : perform writes place = some a) : (a, place) ∈ writes := by
  induction writes using List.reverseRecOn with
  | nil => cases last
  | append_singleton writes write ih =>
      rw [perform_append] at last
      by_cases same : place = write.2
      · rw [same, Function.update_self, Option.some.injEq] at last
        rw [← last, same]
        exact List.mem_append_right _ (List.mem_singleton.mpr rfl)
      · rw [Function.update_of_ne same] at last
        exact List.mem_append_left _ (ih last)

theorem perform_ne_none {writes : List (α × Nat)} {a : α} {place : Nat}
    (made : (a, place) ∈ writes) : perform writes place ≠ none := by
  induction writes using List.reverseRecOn with
  | nil => cases made
  | append_singleton writes write ih =>
      rw [perform_append]
      by_cases same : place = write.2
      · rw [same, Function.update_self]
        exact Option.some_ne_none _
      · rw [Function.update_of_ne same]
        refine ih ((List.mem_append.mp made).resolve_right fun last => same ?_)
        rw [← List.mem_singleton.mp last]

theorem mem_zipIdx_iff (values : List α) (a : α) (place : Nat) :
    (a, place) ∈ values.zipIdx ↔ values[place]? = some a := by
  rw [List.mem_zipIdx_iff_getElem?]

/-- In whatever order the numbered values are written, each one is at its number. -/
theorem perform_zipIdx {values : List α} {writes : List (α × Nat)}
    (shuffled : writes.Perm values.zipIdx) : perform writes = fun place => values[place]? := by
  have distinct : (writes.map Prod.snd).Nodup := by
    rw [(shuffled.map Prod.snd).nodup_iff, List.zipIdx_map_snd]
    exact List.nodup_range'
  funext place
  refine Option.ext fun a => ?_
  rw [perform_eq_some writes distinct, shuffled.mem_iff, mem_zipIdx_iff]

/-- Values that are written to all places below a number, each to its own, are there. -/
theorem perform_perm {writes : List (α × Nat)} {total : Nat}
    (places : (writes.map Prod.snd).Perm (List.range total)) :
    ((List.range total).map (perform writes)).Perm ((writes.map Prod.fst).map some) := by
  have distinct : (writes.map Prod.snd).Nodup := places.nodup_iff.mpr List.nodup_range
  refine (places.symm.map _).trans (List.Perm.of_eq ?_)
  rw [List.map_map, List.map_map]
  exact List.map_congr_left fun write member =>
    (perform_eq_some writes distinct write.1 write.2).mpr member

/-- As many writes as places are at each place once when no place is left out. -/
theorem places_perm {writes : List (α × Nat)} (all : ∀ place < writes.length,
    perform writes place ≠ none) : (writes.map Prod.snd).Perm (List.range writes.length) := by
  have covered : List.range writes.length ⊆ writes.map Prod.snd := fun place inside => by
    obtain ⟨a, last⟩ := Option.ne_none_iff_exists'.mp (all place (List.mem_range.mp inside))
    exact List.mem_map.mpr ⟨_, mem_of_perform last, rfl⟩
  refine ((List.nodup_range.subperm covered).perm_of_length_le ?_).symm
  rw [List.length_map, List.length_range]

/-! ## The places of a block and of its threads -/

/-- The number of values of the threads before `t`. -/
def exclusiveSum (selected : Nat → List α) (t : Nat) : Nat :=
  ((List.range t).map fun t => (selected t).length).sum

/-- The places that the blocks reserve, by additions to the counter in the order given. -/
def atomicAdds (total : Nat → Nat) : Nat → List Nat → List (Nat × Nat)
  | _, [] => []
  | count, block :: rest => (block, count) :: atomicAdds total (count + total block) rest

/-- What the threads of a block write when the block's places start at `blockOff`. -/
def blockWrites (threads : Nat) (selected : Nat → List α) (blockOff : Nat) : List (α × Nat) :=
  (List.range threads).flatMap fun t =>
    (selected t).zipIdx (blockOff + exclusiveSum selected t)

def gridWrites (threads : Nat) (selected : Nat → Nat → List α) (order : List Nat) :
    List (α × Nat) :=
  (atomicAdds (fun block => exclusiveSum (selected block) threads) 0 order).flatMap fun start =>
    blockWrites threads (selected start.1) start.2

/-- The values in the order of the blocks and their threads. -/
def gathered (threads : Nat) (selected : Nat → Nat → List α) (order : List Nat) : List α :=
  order.flatMap fun block => (List.range threads).flatMap (selected block)

theorem exclusiveSum_eq_length (selected : Nat → List α) (threads : Nat) :
    exclusiveSum selected threads = ((List.range threads).flatMap selected).length := by
  rw [exclusiveSum, List.length_flatMap]

theorem blockWrites_eq (threads : Nat) (selected : Nat → List α) (blockOff : Nat) :
    blockWrites threads selected blockOff =
      ((List.range threads).flatMap selected).zipIdx blockOff := by
  induction threads with
  | zero => rfl
  | succ t ih =>
      rw [blockWrites] at ih ⊢
      rw [List.range_succ, List.flatMap_append, List.flatMap_append, List.zipIdx_append, ih,
        ← exclusiveSum_eq_length]
      simp

/-- All writes together number the gathered values. -/
theorem gridWrites_eq (threads : Nat) (selected : Nat → Nat → List α) (order : List Nat) :
    gridWrites threads selected order = (gathered threads selected order).zipIdx := by
  have run (count : Nat) (order : List Nat) :
      (atomicAdds (fun block => exclusiveSum (selected block) threads) count order).flatMap
          (fun start => blockWrites threads (selected start.1) start.2) =
        (gathered threads selected order).zipIdx count := by
    induction order generalizing count with
    | nil => rfl
    | cons block rest ih =>
        rw [atomicAdds, List.flatMap_cons, ih, blockWrites_eq, exclusiveSum_eq_length, gathered,
          gathered, List.flatMap_cons, List.zipIdx_append]
  exact run 0 order

/-- The count after the last addition. -/
theorem count_eq (threads : Nat) (selected : Nat → Nat → List α) (order : List Nat) :
    (order.map fun block => exclusiveSum (selected block) threads).sum =
      (gathered threads selected order).length := by
  rw [gathered, List.length_flatMap]
  simp only [exclusiveSum_eq_length]

theorem perform_gridWrites {threads : Nat} {selected : Nat → Nat → List α} {order : List Nat}
    {writes : List (α × Nat)} (shuffled : writes.Perm (gridWrites threads selected order)) :
    (List.range (gathered threads selected order).length).map (perform writes) =
      (gathered threads selected order).map some := by
  rw [gridWrites_eq] at shuffled
  rw [perform_zipIdx shuffled]
  refine List.ext_getElem? fun place => ?_
  by_cases inside : place < (gathered threads selected order).length
  · simp [inside]
  · simp [inside]

/-! ## Tiles of a range -/

section Tiles

variable (threads items n : Nat)

def numTiles : Nat := (n + threads * items - 1) / (threads * items)

/-- The last tile may be shorter. -/
def numTileItems (block : Nat) : Nat :=
  if block = numTiles threads items n - 1 then n - block * (threads * items)
  else threads * items

/-- The indices a thread looks at, a stride of the block's size apart. -/
def tileItems (block t : Nat) : List Nat :=
  ((List.range items).filter fun item =>
    t + item * threads < numTileItems threads items n block).map
    fun item => block * (threads * items) + t + item * threads

/-- The indices of a tile that are selected. -/
def tileSelected (flag : Nat → Bool) (block t : Nat) : List Nat :=
  (tileItems threads items n block t).filter flag

theorem mem_tileItems {threads items n block t x : Nat} :
    x ∈ tileItems threads items n block t ↔ ∃ item < items,
      t + item * threads < numTileItems threads items n block ∧
        x = block * (threads * items) + (t + item * threads) := by
  simp only [tileItems, List.mem_map, List.mem_filter, List.mem_range, decide_eq_true_iff,
    Nat.add_assoc, and_assoc, @eq_comm _ _ x]

/-- A thread's item lies in its block's tile. -/
theorem item_lt {threads items t item : Nat} (ht : t < threads) (hi : item < items) :
    t + item * threads < threads * items := by
  calc t + item * threads < (item + 1) * threads := by rw [Nat.add_mul]; omega
    _ ≤ items * threads := Nat.mul_le_mul_right threads hi
    _ = threads * items := Nat.mul_comm _ _

theorem tileItems_nodup {threads items n : Nat} (positive : 0 < threads) (block t : Nat) :
    (tileItems threads items n block t).Nodup := by
  refine (List.nodup_range.filter _).map fun a b same => ?_
  have same : a * threads = b * threads := Nat.add_left_cancel same
  exact Nat.eq_of_mul_eq_mul_right positive same

/-- The index of an item tells its thread and its block. -/
theorem tileItems_place {threads items n block t x : Nat} (ht : t < threads)
    (member : x ∈ tileItems threads items n block t) :
    x / (threads * items) = block ∧ x % (threads * items) % threads = t := by
  obtain ⟨item, hi, _, rfl⟩ := mem_tileItems.mp member
  have inside := item_lt ht hi
  have positive : 0 < threads * items := by omega
  constructor
  · rw [Nat.add_comm, Nat.add_mul_div_right _ _ positive, Nat.div_eq_of_lt inside, Nat.zero_add]
  · rw [Nat.add_comm, Nat.add_mul_mod_self_right, Nat.mod_eq_of_lt inside,
      Nat.add_mul_mod_self_right, Nat.mod_eq_of_lt ht]

theorem numTiles_bounds {tile n : Nat} (positive : 0 < tile) (some : 0 < n) :
    0 < (n + tile - 1) / tile ∧ ((n + tile - 1) / tile - 1) * tile < n ∧
      n ≤ (n + tile - 1) / tile * tile := by
  have split := Nat.div_add_mod (n + tile - 1) tile
  have rest := Nat.mod_lt (n + tile - 1) positive
  generalize (n + tile - 1) / tile = tiles at split ⊢
  rw [Nat.mul_comm] at split
  have atLeast : 0 < tiles := by
    rcases Nat.eq_zero_or_pos tiles with rfl | h
    · omega
    · exact h
  have last : tiles * tile = (tiles - 1) * tile + tile := by
    conv_lhs => rw [show tiles = tiles - 1 + 1 by omega, Nat.add_mul, Nat.one_mul]
  refine ⟨atLeast, by omega, by omega⟩

/-- The threads of all blocks look at every index below `n`. -/
theorem exists_tileItems_iff {threads items n x : Nat} (positive : 0 < threads * items) :
    (∃ block < numTiles threads items n, ∃ t < threads, x ∈ tileItems threads items n block t) ↔
      x < n := by
  have threadsPositive : 0 < threads := Nat.pos_of_mul_pos_right positive
  constructor
  · rintro ⟨block, hb, t, ht, member⟩
    obtain ⟨item, hi, within, rfl⟩ := mem_tileItems.mp member
    have inside := item_lt ht hi
    rcases Nat.eq_zero_or_pos n with rfl | some
    · rw [numTiles, Nat.div_eq_of_lt (by omega)] at hb
      omega
    · have bounds := numTiles_bounds positive some
      rw [← numTiles] at bounds
      by_cases last : block = numTiles threads items n - 1
      · rw [numTileItems, if_pos last] at within
        omega
      · have below : (block + 1) * (threads * items) ≤
            (numTiles threads items n - 1) * (threads * items) :=
          Nat.mul_le_mul_right _ (by omega)
        rw [Nat.add_mul, Nat.one_mul] at below
        omega
  · intro inside
    have bounds := numTiles_bounds (n := n) positive (by omega)
    rw [← numTiles] at bounds
    have split := Nat.div_add_mod x (threads * items)
    have rest := Nat.mod_lt x positive
    have splitRest := Nat.div_add_mod (x % (threads * items)) threads
    have thread := Nat.mod_lt (x % (threads * items)) threadsPositive
    rw [Nat.mul_comm] at split splitRest
    have block : x / (threads * items) < numTiles threads items n :=
      (Nat.div_lt_iff_lt_mul positive).mpr (by omega)
    refine ⟨x / (threads * items), block, x % (threads * items) % threads, thread, ?_⟩
    refine mem_tileItems.mpr ⟨x % (threads * items) / threads, ?_, ?_, by omega⟩
    · exact (Nat.div_lt_iff_lt_mul threadsPositive).mpr (by rw [Nat.mul_comm items]; exact rest)
    · rw [numTileItems]
      split <;> omega

/-- The blocks in any order gather every selected index below `n` once. -/
theorem gathered_tiles {threads items n : Nat} (positive : 0 < threads * items)
    (flag : Nat → Bool) {order : List Nat}
    (all : order.Perm (List.range (numTiles threads items n))) :
    (gathered threads (tileSelected threads items n flag) order).Perm
      ((List.range n).filter flag) := by
  have threadsPositive : 0 < threads := Nat.pos_of_mul_pos_right positive
  have nodup : (gathered threads (tileSelected threads items n flag) order).Nodup := by
    rw [gathered, List.nodup_flatMap]
    constructor
    · intro block _
      rw [List.nodup_flatMap]
      constructor
      · intro t _
        exact (tileItems_nodup threadsPositive block t).filter flag
      · refine List.Pairwise.imp_of_mem ?_ List.nodup_range
        intro t t' ht ht' different x member member'
        have place := tileItems_place (List.mem_range.mp ht) (List.mem_of_mem_filter member)
        have place' := tileItems_place (List.mem_range.mp ht') (List.mem_of_mem_filter member')
        exact different (place.2.symm.trans place'.2)
    · refine List.Pairwise.imp ?_ (all.nodup_iff.mpr List.nodup_range)
      intro block block' different x member member'
      obtain ⟨t, ht, member⟩ := List.mem_flatMap.mp member
      obtain ⟨t', ht', member'⟩ := List.mem_flatMap.mp member'
      have place := tileItems_place (List.mem_range.mp ht) (List.mem_of_mem_filter member)
      have place' := tileItems_place (List.mem_range.mp ht') (List.mem_of_mem_filter member')
      exact different (place.1.symm.trans place'.1)
  rw [List.perm_ext_iff_of_nodup nodup (List.nodup_range.filter flag)]
  intro x
  rw [List.mem_filter, List.mem_range, ← exists_tileItems_iff (x := x) positive]
  simp only [gathered, List.mem_flatMap, all.mem_iff, List.mem_range, tileSelected,
    List.mem_filter]
  constructor
  · rintro ⟨block, hb, t, ht, member, chosen⟩
    exact ⟨⟨block, hb, t, ht, member⟩, chosen⟩
  · rintro ⟨⟨block, hb, t, ht, member⟩, chosen⟩
    exact ⟨block, hb, t, ht, member, chosen⟩

/-- What the threads of all blocks write of the selected indices, in whatever order. -/
theorem tiles_written {threads items n : Nat} (positive : 0 < threads * items)
    (flag : Nat → Bool) (value : Nat → α) {order : List Nat} {writes : List (α × Nat)}
    (blocks : order.Perm (List.range (numTiles threads items n)))
    (shuffled : writes.Perm (gridWrites threads
      (fun block t => (tileSelected threads items n flag block t).map value) order)) :
    ((List.range (order.map fun block => exclusiveSum
        (fun t => (tileSelected threads items n flag block t).map value) threads).sum).map
      (perform writes)).Perm (((List.range n).filter flag).map fun x => some (value x)) := by
  have places := perform_gridWrites shuffled
  rw [← count_eq] at places
  rw [places]
  have mapped : gathered threads
      (fun block t => (tileSelected threads items n flag block t).map value) order =
        (gathered threads (tileSelected threads items n flag) order).map value := by
    simp only [gathered, List.map_flatMap]
  rw [mapped, List.map_map]
  exact (gathered_tiles positive flag blocks).map _

/-- The same with any number of values for an index. -/
theorem tiles_flatMap_written {threads items n : Nat} (positive : 0 < threads * items)
    (values : Nat → List α) {order : List Nat} {writes : List (α × Nat)}
    (blocks : order.Perm (List.range (numTiles threads items n)))
    (shuffled : writes.Perm (gridWrites threads
      (fun block t => (tileItems threads items n block t).flatMap values) order)) :
    ((List.range (order.map fun block => exclusiveSum
        (fun t => (tileItems threads items n block t).flatMap values) threads).sum).map
      (perform writes)).Perm (((List.range n).flatMap values).map some) := by
  have places := perform_gridWrites shuffled
  rw [← count_eq] at places
  rw [places]
  have all : tileSelected threads items n (fun _ => true) = tileItems threads items n := by
    funext block t
    exact List.filter_true _
  have gatheredItems := gathered_tiles positive (fun _ => true) blocks
  rw [all, List.filter_true] at gatheredItems
  have mapped : gathered threads (fun block t =>
      (tileItems threads items n block t).flatMap values) order =
        (gathered threads (tileItems threads items n) order).flatMap values := by
    simp only [gathered, List.flatMap_assoc]
  rw [mapped]
  exact (gatheredItems.flatMap_right values).map _

end Tiles

end BlockCompaction
