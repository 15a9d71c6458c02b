import Mathlib
import SiriusGpu.OffsetArrays

/-!
# Compaction in two passes

`probe_multikey_count` and `probe_multikey` of the hash join, and `compact_valid_rows`. The
first pass counts, in each block with a scan of `int` counters, and takes the places of a block
with one atomic step; the second writes from the places of the threads. The join hands these over
in an array in memory, whose index is computed in 32 bits.
-/

namespace TwoPassCompaction

open BlockCompaction
open OffsetArrays (handed written Arranged atomicAdds_fst)

section Machine

/-- `int` arithmetic. -/
def int32 (x : Int) : Int := (x + 2 ^ 31) % 2 ^ 32 - 2 ^ 31

/-- A sum of `unsigned long long`, which counts places in memory and does not wrap around. -/
def uint64 (x : Int) : Nat := x.toNat

theorem int32_small {x : Nat} (small : x < 2 ^ 31) : int32 x = x := by
  rw [int32]
  omega

end Machine

section Model

variable (threads items n : Nat)

section Probe

variable (matched : Nat → Nat)

/-- `t_count`: the matches of the items of a thread. -/
def threadCount (block t : Nat) : Int :=
  (tileItems threads items n block t).foldl (fun count row => int32 (count + int32 (matched row))) 0

/-- `c_t_count`: `BlockScan<int>::ExclusiveSum`. -/
def scanned (block t : Nat) : Int :=
  (List.range t).foldl (fun sum t => int32 (sum + threadCount threads items n matched block t)) 0

/-- What the last thread of a block adds to the total. -/
def blockAdd (block : Nat) : Nat :=
  uint64 (threadCount threads items n matched block (threads - 1) +
    scanned threads items n matched block (threads - 1))

/-- The blocks with the totals they read, in the order of their atomic steps. -/
def blockStarts (order : List Nat) : List (Nat × Nat) :=
  atomicAdds (blockAdd threads items n matched) 0 order

/-- The total after all steps. -/
def countTotal (order : List Nat) : Nat := (order.map (blockAdd threads items n matched)).sum

/-- The entry of a thread in `offset_each_thread`, `blockIdx.x * B + threadIdx.x`. -/
def offsetIndex (block t : Nat) : Nat := (block * threads + t) % 2 ^ 32

/-- What the threads store in `offset_each_thread`, and where; those after the input store
nothing. -/
def offsetStores (order : List Nat) : List (Nat × Nat) :=
  (blockStarts threads items n matched order).flatMap fun start =>
    ((List.range threads).filter fun t => start.1 * (threads * items) + t < n).map fun t =>
      (uint64 (start.2 + scanned threads items n matched start.1 t), offsetIndex threads start.1 t)

/-- The matches of a row. -/
def matchesOf (row : Nat) : List (Nat × Nat) := (List.range (matched row)).map (row, ·)

/-- What a thread of `probe_multikey` writes. -/
def probeThread (offsetEachThread : Nat → Option Nat) (block t : Nat) :
    List ((Nat × Nat) × Nat) :=
  let outputOffset := if block * (threads * items) + t < n then
    (offsetEachThread (offsetIndex threads block t)).getD 0 else 0
  ((tileItems threads items n block t).flatMap (matchesOf matched)).zipIdx outputOffset

/-- The writes of the second pass, after the stores of the first in the order they were made. -/
def probeWrites (stores : List (Nat × Nat)) : List ((Nat × Nat) × Nat) :=
  (List.range (numTiles threads items n)).flatMap fun block =>
    (List.range threads).flatMap fun t =>
      probeThread threads items n matched (perform stores) block t

/-- The matches of the items of a thread, in its order. -/
def threadValues (block t : Nat) : List (Nat × Nat) :=
  (tileItems threads items n block t).flatMap (matchesOf matched)

/-- No other thread stores its offset in the entry of a thread with a match. -/
def Unshared : Prop :=
  OffsetArrays.Unshared threads (numTiles threads items n) (threadValues threads items n matched)
    (fun block t => block * (threads * items) + t < n) (offsetIndex threads)

/-- The number of matches of a thread. -/
def threadMatches (block t : Nat) : Nat := ((tileItems threads items n block t).map matched).sum

/-- The matches of a block. -/
def blockMatches (block : Nat) : Nat :=
  ((List.range threads).map fun t =>
    ((tileItems threads items n block t).map matched).sum).sum

end Probe

section Compact

variable (selected : Nat → Bool)

/-- A selected row is one match. -/
def flagged (row : Nat) : Nat := if selected row then 1 else 0

/-- What a thread of `compact_valid_rows` writes; `c_t_count` goes up with each row. -/
def compactThread (blockOff block t : Nat) : List (Nat × Nat) :=
  ((tileItems threads items n block t).filter selected).zipIdx.map fun (row, k) =>
    (row, uint64 (blockOff + int32 (scanned threads items n (flagged selected) block t + k)))

def compactWrites (order : List Nat) : List (Nat × Nat) :=
  (blockStarts threads items n (flagged selected) order).flatMap fun start =>
    (List.range threads).flatMap fun t => compactThread threads items n selected start.2 start.1 t

end Compact

end Model

section Meaning

variable {α : Type}

/-- Every member gets one place, and every place below the total is given to one member. -/
structure Bijective (members : List α) (total : Nat) (writes : List (α × Nat)) : Prop where
  members : (writes.map Prod.fst).Perm members
  places : (writes.map Prod.snd).Perm (List.range total)

end Meaning

section Counts

variable {threads items n : Nat} {matched : Nat → Nat} {block t : Nat}

/-- A sum that stays small is that of the counter. -/
theorem int32_sum {α : Type} {f : α → Int} {g : α → Nat} {l : List α}
    (start : Nat) (same : ∀ a ∈ l, f a = g a) (small : start + (l.map g).sum < 2 ^ 31) :
    l.foldl (fun sum a => int32 (sum + f a)) (start : Int) = (start + (l.map g).sum : Nat) := by
  induction l generalizing start with
  | nil => rfl
  | cons a rest ih =>
      rw [List.map_cons, List.sum_cons, ← Nat.add_assoc] at small ⊢
      have head : int32 ((start : Int) + f a) = (start + g a : Nat) := by
        rw [same a List.mem_cons_self, ← Nat.cast_add, int32_small (by omega)]
      rw [List.foldl_cons, head]
      exact ih _ (fun b member => same b (List.mem_cons_of_mem _ member)) small

theorem blockMatches_ge (inside : t ≤ threads) :
    ((List.range t).map (threadMatches threads items n matched block)).sum ≤
      blockMatches threads items n matched block := by
  have split : List.range threads =
      List.range t ++ (List.range (threads - t)).map (t + ·) := by
    rw [← List.range_add, Nat.add_sub_cancel' inside]
  rw [blockMatches, split, List.map_append, List.sum_append]
  exact Nat.le_add_right _ _

theorem threadCount_eq (fits : blockMatches threads items n matched block < 2 ^ 31)
    (inside : t < threads) : threadCount threads items n matched block t =
      threadMatches threads items n matched block t := by
  have most : ((List.range (t + 1)).map (threadMatches threads items n matched block)).sum ≤
      blockMatches threads items n matched block := blockMatches_ge (Nat.succ_le_of_lt inside)
  rw [List.range_succ, List.map_append, List.sum_append, List.map_singleton, List.sum_singleton]
    at most
  have small : ((tileItems threads items n block t).map matched).sum < 2 ^ 31 := by
    rw [threadMatches] at most
    omega
  have each (row : Nat) (member : row ∈ tileItems threads items n block t) :
      int32 (matched row) = matched row := int32_small (lt_of_le_of_lt
        (List.single_le_sum (by simp) _ (List.mem_map_of_mem member)) small)
  have sum := int32_sum 0 each (by omega)
  rw [Nat.zero_add] at sum
  exact sum

theorem scanned_eq (fits : blockMatches threads items n matched block < 2 ^ 31)
    (inside : t ≤ threads) : scanned threads items n matched block t =
      ((List.range t).map (threadMatches threads items n matched block)).sum := by
  have most : ((List.range t).map (threadMatches threads items n matched block)).sum ≤
      blockMatches threads items n matched block := blockMatches_ge inside
  have each (t' : Nat) (member : t' ∈ List.range t) :
      threadCount threads items n matched block t' =
        threadMatches threads items n matched block t' :=
    threadCount_eq fits (lt_of_lt_of_le (List.mem_range.mp member) inside)
  have sum := int32_sum 0 each (by rw [Nat.zero_add]; exact lt_of_le_of_lt most fits)
  rw [Nat.zero_add] at sum
  exact sum

theorem blockAdd_eq (positive : 0 < threads)
    (fits : blockMatches threads items n matched block < 2 ^ 31) :
    blockAdd threads items n matched block = blockMatches threads items n matched block := by
  obtain ⟨last, rfl⟩ : ∃ last, threads = last + 1 := ⟨threads - 1, by omega⟩
  rw [blockAdd, Nat.add_sub_cancel, threadCount_eq fits (Nat.lt_succ_self _),
    scanned_eq fits (Nat.le_succ _), blockMatches, List.range_succ, List.map_append,
    List.sum_append, List.map_singleton, List.sum_singleton, uint64]
  rw [← Nat.cast_add, Int.toNat_natCast, Nat.add_comm]
  rfl

theorem threadValues_length : (threadValues threads items n matched block t).length =
    threadMatches threads items n matched block t := by
  rw [threadValues, List.length_flatMap, threadMatches]
  simp [matchesOf]

theorem exclusiveSum_values (t : Nat) :
    exclusiveSum (threadValues threads items n matched block) t =
      ((List.range t).map (threadMatches threads items n matched block)).sum := by
  simp only [exclusiveSum, threadValues_length]

theorem atomicAdds_congr {f g : Nat → Nat} {order : List Nat} (same : ∀ block ∈ order,
    f block = g block) (start : Nat) : atomicAdds f start order = atomicAdds g start order := by
  induction order generalizing start with
  | nil => rfl
  | cons block rest ih =>
      rw [atomicAdds, atomicAdds, same block List.mem_cons_self,
        ih fun block member => same block (List.mem_cons_of_mem _ member)]

end Counts

section Entries

variable {α : Type} {threads items n blocks : Nat} {values : Nat → Nat → List α}

/-- A thread with a value is on a row of the input, and two threads of a block have their own
entries. -/
theorem arranged_tiles (positive : 0 < threads * items) (small : threads ≤ 2 ^ 32)
    (empty : ∀ block t, tileItems threads items n block t = [] → values block t = []) :
    Arranged threads (numTiles threads items n) values
      (fun block t => block * (threads * items) + t < n) (offsetIndex threads) := by
  constructor
  · intro block known t inside some
    rw [decide_eq_true_iff]
    by_contra after
    refine some (empty block t (List.eq_nil_iff_forall_not_mem.mpr fun x looked => after ?_))
    have below := (exists_tileItems_iff positive).mp ⟨block, known, t, inside, looked⟩
    obtain ⟨item, -, -, rfl⟩ := mem_tileItems.mp looked
    omega
  · intro block t inside t' inside' same
    rw [offsetIndex, offsetIndex] at same
    omega

/-- Entries with indices of 32 bits are all different. -/
theorem own_entries (kept : Nat → Nat → Bool) (narrow : blocks * threads ≤ 2 ^ 32) :
    OffsetArrays.Unshared threads blocks values kept (offsetIndex threads) := by
  have index (b t : Nat) (known : b < blocks) (inside : t < threads) :
      offsetIndex threads b t = t + threads * b := by
    have room : (b + 1) * threads ≤ blocks * threads := Nat.mul_le_mul_right _ known
    rw [Nat.succ_mul] at room
    rw [offsetIndex, Nat.mod_eq_of_lt (by omega), Nat.add_comm, Nat.mul_comm]
  intro block known t inside _ block' known' t' inside' _ same
  rw [index _ _ known inside, index _ _ known' inside'] at same
  have thread := congrArg (· % threads) same
  simp only [Nat.add_mul_mod_self_left, Nat.mod_eq_of_lt inside, Nat.mod_eq_of_lt inside'] at thread
  refine ⟨?_, thread⟩
  rw [thread] at same
  exact Nat.eq_of_mul_eq_mul_left (Nat.zero_lt_of_lt inside) (Nat.add_left_cancel same)

end Entries

section Passes

variable {threads items n : Nat} {matched : Nat → Nat} {selected : Nat → Bool}
  {order order' : List Nat}

/-- The template parameters are positive integers, and each block has a total of 31 bits. -/
structure Sized (threads items n : Nat) (matched : Nat → Nat) : Prop where
  positive : 0 < threads * items
  small : threads < 2 ^ 31
  fits : ∀ block < numTiles threads items n,
    blockMatches threads items n matched block < 2 ^ 31

/-- The blocks in some order. -/
structure Launched (threads items n : Nat) (matched : Nat → Nat) (order : List Nat) : Prop
    extends Sized threads items n matched where
  blocks : order.Perm (List.range (numTiles threads items n))

theorem Launched.threads_pos (launched : Launched threads items n matched order) : 0 < threads :=
  Nat.pos_of_mul_pos_right launched.positive

theorem Launched.block_fits (launched : Launched threads items n matched order) {block : Nat}
    (member : block ∈ order) : blockMatches threads items n matched block < 2 ^ 31 :=
  launched.fits block (List.mem_range.mp (launched.blocks.mem_iff.mp member))

theorem Launched.total (launched : Launched threads items n matched order) :
    countTotal threads items n matched order =
      (gathered threads (threadValues threads items n matched) order).length := by
  rw [← count_eq, countTotal]
  refine congrArg List.sum (List.map_congr_left fun block member => ?_)
  rw [blockAdd_eq launched.threads_pos (launched.block_fits member), exclusiveSum_values]
  rfl

theorem Launched.starts (launched : Launched threads items n matched order) :
    blockStarts threads items n matched order =
      atomicAdds (fun block => exclusiveSum (threadValues threads items n matched block) threads)
        0 order := by
  refine atomicAdds_congr (fun block member => ?_) 0
  rw [blockAdd_eq launched.threads_pos (launched.block_fits member), exclusiveSum_values]
  rfl

/-- Every match of a row is gathered once. -/
theorem Launched.gathered_perm (launched : Launched threads items n matched order) :
    (gathered threads (threadValues threads items n matched) order).Perm
      ((List.range n).flatMap (matchesOf matched)) := by
  have all : tileSelected threads items n (fun _ => true) = tileItems threads items n := by
    funext block t
    exact List.filter_true _
  have rows := gathered_tiles launched.positive (fun _ => true) launched.blocks
  rw [all, List.filter_true] at rows
  have values : gathered threads (threadValues threads items n matched) order =
      (gathered threads (tileItems threads items n) order).flatMap (matchesOf matched) := by
    simp only [gathered, List.flatMap_assoc]
    rfl
  rw [values]
  exact rows.flatMap_right _

/-- A thread with a match stores its offset, and two threads of a block have their own entries. -/
theorem arranged (sized : Sized threads items n matched) :
    Arranged threads (numTiles threads items n) (threadValues threads items n matched)
      (fun block t => block * (threads * items) + t < n) (offsetIndex threads) := by
  refine arranged_tiles sized.positive (sized.small.le.trans (by decide)) fun block t empty => ?_
  rw [threadValues, empty, List.flatMap_nil]

/-- The counters have the places of the threads. -/
theorem Launched.stores_eq (launched : Launched threads items n matched order) :
    offsetStores threads items n matched order =
      handed threads (threadValues threads items n matched)
        (fun block t => block * (threads * items) + t < n) (offsetIndex threads) order := by
  rw [offsetStores, launched.starts, handed]
  refine List.flatMap_congr fun start member => List.map_congr_left fun t inside => ?_
  have inside := List.mem_range.mp (List.mem_of_mem_filter inside)
  rw [scanned_eq (launched.block_fits (atomicAdds_fst member)) inside.le, ← exclusiveSum_values,
    uint64, ← Nat.cast_add, Int.toNat_natCast]

theorem probeWrites_eq (stores : List (Nat × Nat)) : probeWrites threads items n matched stores =
    written threads (numTiles threads items n) (threadValues threads items n matched)
      (fun block t => block * (threads * items) + t < n) (offsetIndex threads)
      (perform stores) := by
  simp only [probeWrites, probeThread, written, threadValues, decide_eq_true_iff]

/-- The places of a grid are those below the total. -/
theorem gridWrites_bijective {α : Type} {values : Nat → Nat → List α} {members : List α}
    (all : (gathered threads values order).Perm members) :
    Bijective members (gathered threads values order).length
      (gridWrites threads values order) := by
  rw [gridWrites_eq]
  constructor
  · rw [List.zipIdx_map_fst]
    exact all
  · rw [List.zipIdx_map_snd, ← List.range_eq_range']

/-- Whatever the offsets are, the members of the writes are all matches. -/
theorem probeWrites_members {stores : List (Nat × Nat)} (sized : Sized threads items n matched) :
    ((probeWrites threads items n matched stores).map Prod.fst).Perm
      ((List.range n).flatMap (matchesOf matched)) := by
  have launched : Launched threads items n matched (List.range (numTiles threads items n)) :=
    ⟨sized, List.Perm.refl _⟩
  rw [probeWrites_eq, OffsetArrays.written_values]
  exact launched.gathered_perm

theorem Launched.total_length (launched : Launched threads items n matched order) :
    countTotal threads items n matched order =
      ((List.range n).flatMap (matchesOf matched)).length := by
  rw [launched.total, launched.gathered_perm.length_eq]

/-- The join's matches have one place each, whatever the orders, if and only if no thread with one
shares its entry. -/
theorem probe_bijective_iff (sized : Sized threads items n matched) :
    (∀ order stores, order.Perm (List.range (numTiles threads items n)) →
      stores.Perm (offsetStores threads items n matched order) →
        Bijective ((List.range n).flatMap (matchesOf matched))
          (countTotal threads items n matched order)
          (probeWrites threads items n matched stores)) ↔ Unshared threads items n matched := by
  rw [Unshared, ← OffsetArrays.places_iff (arranged sized)]
  refine forall₂_congr fun order stores => forall_congr' fun blocks => ?_
  have launched : Launched threads items n matched order := ⟨sized, blocks⟩
  rw [launched.stores_eq, launched.total, ← probeWrites_eq]
  exact forall_congr' fun _ =>
    ⟨fun placed => placed.places, fun places => ⟨probeWrites_members sized, places⟩⟩

theorem flagged_sum (l : List Nat) :
    (l.map (flagged selected)).sum = (l.filter selected).length := by
  induction l with
  | nil => rfl
  | cons row rest ih =>
      rw [List.map_cons, List.sum_cons, ih, flagged]
      by_cases chosen : selected row = true
      · rw [List.filter_cons_of_pos chosen, if_pos chosen, List.length_cons, Nat.add_comm]
      · rw [List.filter_cons_of_neg chosen, if_neg chosen, Nat.zero_add]

theorem flagged_length (block t : Nat) : (tileSelected threads items n selected block t).length =
    threadMatches threads items n (flagged selected) block t := by
  rw [tileSelected, threadMatches, flagged_sum]

theorem Launched.compact_eq (launched : Launched threads items n (flagged selected) order) :
    compactWrites threads items n selected order =
      gridWrites threads (tileSelected threads items n selected) order := by
  have places (block t : Nat) : exclusiveSum (tileSelected threads items n selected block) t =
      ((List.range t).map (threadMatches threads items n (flagged selected) block)).sum := by
    simp only [exclusiveSum, flagged_length]
  have starts : blockStarts threads items n (flagged selected) order =
      atomicAdds (fun block => exclusiveSum (tileSelected threads items n selected block) threads)
        0 order := by
    rw [launched.starts]
    refine atomicAdds_congr (fun block _ => ?_) 0
    rw [exclusiveSum_values, places]
  rw [compactWrites, gridWrites, starts]
  refine List.flatMap_congr fun start member => ?_
  rw [blockWrites]
  refine List.flatMap_congr fun t inside => ?_
  have fits := launched.block_fits (atomicAdds_fst member)
  have inside' := List.mem_range.mp inside
  have scan := scanned_eq fits (Nat.le_of_lt inside')
  have most : ((List.range (t + 1)).map
      (threadMatches threads items n (flagged selected) start.1)).sum ≤
        blockMatches threads items n (flagged selected) start.1 :=
    blockMatches_ge (Nat.succ_le_of_lt inside')
  rw [List.range_succ, List.map_append, List.sum_append, List.map_singleton, List.sum_singleton]
    at most
  rw [compactThread, scan, ← tileSelected, places]
  conv_rhs => rw [List.zipIdx_eq_map_add]
  refine List.map_congr_left fun place numbered => ?_
  have below := List.snd_lt_of_mem_zipIdx numbered
  rw [flagged_length] at below
  simp only at below ⊢
  rw [uint64, ← Nat.cast_add, int32_small (by omega), ← Nat.cast_add, Int.toNat_natCast]
  simp
  omega

/-- The total is the number of matches, in whatever order the blocks are. -/
theorem Launched.total_eq (launched : Launched threads items n matched order) :
    countTotal threads items n matched order = ((List.range n).map matched).sum := by
  rw [launched.total, launched.gathered_perm.length_eq, List.length_flatMap]
  simp [matchesOf]

end Passes

section Sharing

variable {threads items n : Nat} {matched : Nat → Nat} {block : Nat}

theorem unshared_of_narrow (narrow : numTiles threads items n * threads ≤ 2 ^ 32) :
    Unshared threads items n matched :=
  own_entries _ narrow

/-- Each match has one place below the total of the first pass, in whatever order the blocks take
their places and the threads store their offsets, if and only if no thread with a match shares its
entry. The rows that are selected always have one place each, and the second pass over these has
the total of the first. -/
theorem passes_bijective_iff {selected : Nat → Bool} (probe : Sized threads items n matched)
    (compact : Sized threads items n (flagged selected)) :
    ((∀ order stores, order.Perm (List.range (numTiles threads items n)) →
      stores.Perm (offsetStores threads items n matched order) →
        Bijective ((List.range n).flatMap (matchesOf matched))
          (countTotal threads items n matched order)
          (probeWrites threads items n matched stores)) ↔ Unshared threads items n matched) ∧
    ∀ counted written : List Nat, counted.Perm (List.range (numTiles threads items n)) →
      written.Perm (List.range (numTiles threads items n)) →
        Bijective ((List.range n).filter selected)
            (countTotal threads items n (flagged selected) counted)
            (compactWrites threads items n selected written) ∧
          countTotal threads items n (flagged selected) written =
            countTotal threads items n (flagged selected) counted := by
  refine ⟨probe_bijective_iff probe, fun counted written blocks blocks' => ?_⟩
  have count : Launched threads items n (flagged selected) counted := ⟨compact, blocks⟩
  have write : Launched threads items n (flagged selected) written := ⟨compact, blocks'⟩
  have rows := gathered_tiles write.positive selected write.blocks
  refine ⟨?_, by rw [write.total_eq, count.total_eq]⟩
  rw [write.compact_eq, count.total_eq, flagged_sum, ← rows.length_eq]
  exact gridWrites_bijective rows

/-- Nine rows with up to two matches, and all but one of them, in three blocks of two threads with
two items. -/
theorem nine_rows_bijective :
    (∀ order stores, order.Perm (List.range (numTiles 2 2 9)) →
      stores.Perm (offsetStores 2 2 9 (fun row => row % 3) order) →
        Bijective ((List.range 9).flatMap (matchesOf fun row => row % 3))
          (countTotal 2 2 9 (fun row => row % 3) order)
          (probeWrites 2 2 9 (fun row => row % 3) stores)) ∧
    Bijective ((List.range 9).filter fun row => row ≠ 1)
      (countTotal 2 2 9 (flagged fun row => row ≠ 1) [2, 0, 1])
      (compactWrites 2 2 9 (fun row => row ≠ 1) [1, 2, 0]) := by
  have probe : Sized 2 2 9 (fun row => row % 3) := ⟨by decide, by decide, by decide⟩
  have compact : Sized 2 2 9 (flagged fun row => row ≠ 1) := ⟨by decide, by decide, by decide⟩
  obtain ⟨probed, compacted⟩ := passes_bijective_iff probe compact
  exact ⟨probed.mpr (unshared_of_narrow (by decide)),
    (compacted [2, 0, 1] [1, 2, 0] (by decide) (by decide)).1⟩

/-- The rows of a block are all that its matches depend on. -/
theorem blockMatches_congr {other : Nat → Nat} (positive : 0 < threads * items)
    (known : block < numTiles threads items n) (same : ∀ row < n, matched row = other row) :
    blockMatches threads items n matched block = blockMatches threads items n other block := by
  refine congrArg List.sum (List.map_congr_left fun t inside => ?_)
  refine congrArg List.sum (List.map_congr_left fun row looked => same row ?_)
  exact (exists_tileItems_iff positive).mp ⟨block, known, t, List.mem_range.mp inside, looked⟩

/-- With one match at most for each row a block has no more than its rows. -/
theorem blockMatches_le (positive : 0 < threads * items) (small : ∀ row < n, matched row ≤ 1)
    (known : block < numTiles threads items n) :
    blockMatches threads items n matched block ≤ threads * items := by
  have thread (t : Nat) (inside : t < threads) :
      threadMatches threads items n matched block t ≤ items := by
    have length : (tileItems threads items n block t).length ≤ items := by
      rw [tileItems, List.length_map]
      exact (List.length_filter_le _ _).trans List.length_range.le
    refine (List.sum_le_card_nsmul _ 1 fun count member => ?_).trans ?_
    · obtain ⟨row, looked, rfl⟩ := List.mem_map.mp member
      exact small row ((exists_tileItems_iff positive).mp ⟨block, known, t, inside, looked⟩)
    · rw [List.length_map, smul_eq_mul, Nat.mul_one]
      exact length
  refine (List.sum_le_card_nsmul _ items fun count member => ?_).trans ?_
  · obtain ⟨t, inside, rfl⟩ := List.mem_map.mp member
    exact thread t (List.mem_range.mp inside)
  · rw [List.length_map, List.length_range, smul_eq_mul]

/-- Behind 2^34 rows, 128 threads with four items each, a block has the entries of the first. -/
theorem entry_shared : ¬ ∀ n matched order stores, (∀ block < numTiles 128 4 n,
    blockMatches 128 4 n matched block < 2 ^ 31) →
      order.Perm (List.range (numTiles 128 4 n)) →
        stores.Perm (offsetStores 128 4 n matched order) →
          Bijective ((List.range n).flatMap (matchesOf matched))
            (countTotal 128 4 n matched order) (probeWrites 128 4 n matched stores) := by
  intro all
  have first : ∀ block < numTiles 128 4 (2 ^ 34 + 1),
      blockMatches 128 4 (2 ^ 34 + 1) (fun row => if row = 0 then 1 else 0) block < 2 ^ 31 :=
    fun block known =>
      (blockMatches_le (by decide) (fun row _ => by split <;> decide) known).trans_lt (by decide)
  have unshared := (probe_bijective_iff ⟨by decide, by decide, first⟩).mp
    fun order stores => all _ _ order stores first
  have some : threadValues 128 4 (2 ^ 34 + 1) (fun row => if row = 0 then 1 else 0) 0 0 ≠ [] := by
    decide
  obtain ⟨same, -⟩ := unshared 0 (by decide) 0 (by decide) some (2 ^ 25) (by decide) 0 (by decide)
    (by decide) (by decide)
  exact absurd same (by decide)

end Sharing

end TwoPassCompaction
