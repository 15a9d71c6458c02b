import SiriusGpu.OpenAddressing

/-!
# Building the hash table of a join

`build_multikey` over the table that `Sink` allocates: twice as many slots as build
rows, a fixed stride, an all-ones word as the mark of an empty slot. The first key of
a row is put into its slot by a compare-and-swap; the other keys and the row id follow.

Keys are the 64-bit words that the kernels read. A build without rows returns before
the kernel is launched.
-/

namespace HashTableBuild

open OpenAddressing

abbrev Word := BitVec 64

def EMPTY : Word := 0xFFFFFFFFFFFFFFFF

def STRIDE : Nat := 100007

def hash64 (key1 key2 : Word) : Word :=
  let h := key1 * 0xc6a4a7935bd1e995
  let h := h ^^^ (h >>> 33)
  let h := h ^^^ (key2 * 0xc6a4a7935bd1e995)
  let h := h * 0xc6a4a7935bd1e995
  h ^^^ (h >>> 33)

/-- The first slot of a row; with more than two equality keys the thread returns. -/
def startSlot (equalKeys htLen : Nat) (keys : Nat → Word) : Option Nat :=
  if equalKeys = 1 then some ((keys 0).toNat % htLen)
  else if equalKeys = 2 then some ((hash64 (keys 0) (keys 1)).toNat % htLen)
  else none

/-- The build side: the words of every row's keys. -/
structure Build where
  rows : Nat
  numKeys : Nat
  equalKeys : Nat
  keys : Nat → Nat → Word
  positive : 0 < rows

namespace Build

variable (build : Build)

def htLen : Nat := build.rows * 2

theorem htLen_pos : 0 < build.htLen := Nat.mul_pos build.positive Nat.two_pos

/-- The columns of a row in the table: its keys, then its row id. -/
def record (row column : Nat) : Word :=
  if column < build.numKeys then build.keys row column else BitVec.ofNat 64 row

/-- The threads of all rows return when no hash is defined for the equality keys. -/
def insertedRows : Nat :=
  if build.equalKeys = 1 ∨ build.equalKeys = 2 then build.rows else 0

def start (row : Nat) : Nat :=
  (startSlot build.equalKeys build.htLen (build.keys row)).getD 0

theorem startSlot_lt {keys : Nat → Word} {slot : Nat}
    (known : startSlot build.equalKeys build.htLen keys = some slot) : slot < build.htLen := by
  rw [startSlot] at known
  split_ifs at known
  · exact Option.some.inj known ▸ Nat.mod_lt _ build.htLen_pos
  · exact Option.some.inj known ▸ Nat.mod_lt _ build.htLen_pos

theorem start_lt (row : Nat) : build.start row < build.htLen := by
  rw [start]
  cases known : startSlot build.equalKeys build.htLen (build.keys row) with
  | none => exact build.htLen_pos
  | some slot => exact build.startSlot_lt known

/-- The rows of the kernel's threads as an insertion. -/
def insertion : Insertion Word where
  len := build.htLen
  stride := STRIDE
  empty := EMPTY
  rows := build.insertedRows
  width := build.numKeys + 1
  start := build.start
  record := build.record
  start_lt := build.start_lt

/-- The insertion loop ends for every row in every order of the steps, and on the
finished table the probing loop of every key meets an empty slot. -/
structure Terminates : Prop where
  inserts : build.insertion.Bounded
  probes : ∀ schedule s, build.insertion.Run schedule s → build.insertion.Finished s →
    ∀ keys slot, startSlot build.equalKeys build.htLen keys = some slot →
      Stops build.insertion s slot

theorem insertion_len : build.insertion.len = build.htLen := rfl

theorem insertion_stride : build.insertion.stride = STRIDE := rfl

theorem cycle_eq : build.insertion.cycle = build.htLen / Nat.gcd STRIDE build.htLen := by
  rw [Insertion.cycle, Insertion.cycles, insertion_len, insertion_stride]

theorem startSlot_some (known : build.equalKeys = 1 ∨ build.equalKeys = 2) (htLen : Nat)
    (keys : Nat → Word) : ∃ slot, startSlot build.equalKeys htLen keys = some slot := by
  rw [startSlot]
  rcases known with one | two
  · exact ⟨_, if_pos one⟩
  · rw [if_neg (by omega), if_pos two]
    exact ⟨_, rfl⟩

theorem start_of_inserted {row : Nat} (inside : row < build.insertedRows) :
    startSlot build.equalKeys build.htLen (build.keys row) = some (build.start row) := by
  rw [insertedRows] at inside
  split at inside
  case isTrue known =>
    obtain ⟨slot, found⟩ := build.startSlot_some known build.htLen (build.keys row)
    rw [start, found, Option.getD_some]
  case isFalse => exact absurd inside (Nat.not_lt_zero row)

variable {build}

theorem roomy_of_terminates (ends : build.Terminates) : build.insertion.Roomy := by
  rw [← ends_iff_roomy]
  refine ⟨ends.inserts, fun schedule s run finished row inside => ?_⟩
  exact ends.probes schedule s run finished (build.keys row) _ (build.start_of_inserted inside)

/-- Insertion and probing end in every order exactly if, for every residue modulo the
common divisor of stride and length, fewer real rows start there than there are slots. -/
theorem terminates_iff (build : Build) : build.Terminates ↔ build.insertion.Roomy := by
  constructor
  · exact roomy_of_terminates
  · intro roomy
    refine ⟨(ends_iff_roomy.mpr roomy).1, fun schedule s run _ keys slot known => ?_⟩
    obtain ⟨k, _, free⟩ := roomy_free (run_inv run) roomy (build.startSlot_lt known)
    exact ⟨k, free⟩

/-- The stride is 97 times 1031: with a row count divisible by neither, one cycle takes
in the whole table. -/
theorem roomy_of_coprime (coprime : Nat.Coprime STRIDE build.rows) : build.insertion.Roomy := by
  have single : Nat.gcd STRIDE build.htLen = 1 := by
    rw [htLen]
    exact Nat.Coprime.mul_right coprime (by decide)
  have few : build.insertedRows ≤ build.rows := by
    rw [insertedRows]
    split <;> omega
  intro c _
  rw [cycle_eq, single, Nat.div_one]
  calc build.insertion.crowd c ≤ (Finset.range build.insertedRows).card := Finset.card_filter_le _ _
    _ ≤ build.rows := by rwa [Finset.card_range]
    _ < build.htLen := by rw [htLen]; have := build.positive; omega

end Build

/-- Rows that all have the same single key. -/
def equalRows (rows : Nat) (key : Word) (positive : 0 < rows) : Build where
  rows := rows
  numKeys := 1
  equalKeys := 1
  keys _ _ := key
  positive := positive

/-- 97 equal keys do not fit on a path of two slots. -/
theorem equal_keys_hang : ¬ ∀ build : Build, build.Terminates := by
  intro ends
  have roomy := Build.roomy_of_terminates (ends (equalRows 97 0 (by decide))) 0 (by decide)
  exact absurd roomy (by decide)

end HashTableBuild
