import Mathlib.Data.List.Count
import Mathlib.Data.Int.GCD
import Mathlib.Data.Int.CardIntervalMod
import Mathlib.Algebra.Order.BigOperators.Group.Finset

/-!
# Concurrent insertion into an open-addressing table

Every row searches from its start slot in steps of a fixed stride. A compare-and-swap
puts its first column into the first slot whose first column it sees empty; the other
columns are written afterwards, one at a time. The rows take their steps in any order.

A row whose first column is the empty mark itself also succeeds on an empty slot, and
leaves it looking empty; such a row is called void, the others real.
-/

namespace OpenAddressing

variable {W : Type}

/-- The rows to insert and the shape of the table. -/
structure Insertion (W : Type) where
  len : Nat
  stride : Nat
  empty : W
  rows : Nat
  width : Nat
  start : Nat → Nat
  record : Nat → Nat → W
  start_lt : ∀ row, start row < len

inductive Thread where
  | searching (slot : Nat)
  | writing (slot column : Nat)
  | done (slot : Nat)

/-- The slot that a row has taken. -/
def Thread.claimed : Thread → Option Nat
  | .searching _ => none
  | .writing slot _ => some slot
  | .done slot => some slot

structure State (W : Type) where
  cells : Nat → Nat → W
  thread : Nat → Thread

def write (cells : Nat → Nat → W) (slot column : Nat) (value : W) : Nat → Nat → W :=
  fun s c => if s = slot ∧ c = column then value else cells s c

namespace Insertion

variable (t : Insertion W)

def next (slot : Nat) : Nat := (slot + t.stride) % t.len

/-- The slot after `k` steps. -/
def path (slot k : Nat) : Nat := (slot + k * t.stride) % t.len

def Real (row : Nat) : Prop := t.record row 0 ≠ t.empty

instance [DecidableEq W] (row : Nat) : Decidable (t.Real row) := inferInstanceAs (Decidable (_ ≠ _))

def init : State W := ⟨fun _ _ => t.empty, fun row => .searching (t.start row)⟩

def proceed (slot column : Nat) : Thread :=
  if column < t.width then .writing slot column else .done slot

/-- One step of a row. -/
def step [DecidableEq W] (s : State W) (row : Nat) : Option (State W) :=
  match s.thread row with
  | .searching slot =>
      if s.cells slot 0 = t.empty then
        some ⟨write s.cells slot 0 (t.record row 0),
          Function.update s.thread row (t.proceed slot 1)⟩
      else some ⟨s.cells, Function.update s.thread row (.searching (t.next slot))⟩
  | .writing slot column =>
      some ⟨write s.cells slot column (t.record row column),
        Function.update s.thread row (t.proceed slot (column + 1))⟩
  | .done _ => none

/-- The states after the steps of a schedule, the latest step first. -/
inductive Run [DecidableEq W] : List Nat → State W → Prop
  | init : Run [] t.init
  | step {schedule s row s'} : Run schedule s → row < t.rows → t.step s row = some s' →
      Run (row :: schedule) s'

def Finished (s : State W) : Prop := ∀ row < t.rows, ∃ slot, s.thread row = .done slot

end Insertion

/-! ## The slots of a path -/

section Paths

variable (t : Insertion W)

theorem path_zero {slot : Nat} (inside : slot < t.len) : t.path slot 0 = slot := by
  simp [Insertion.path, Nat.mod_eq_of_lt inside]

theorem next_path (slot k : Nat) : t.next (t.path slot k) = t.path slot (k + 1) := by
  rw [Insertion.next, Insertion.path, Insertion.path, Nat.mod_add_mod, Nat.add_mul, Nat.one_mul,
    Nat.add_assoc]

/-- The slots that a path can reach are those of its start's residue. -/
def Insertion.cycles : Nat := Nat.gcd t.stride t.len

/-- The number of slots on a path. -/
def Insertion.cycle : Nat := t.len / t.cycles

theorem cycles_dvd_len : t.cycles ∣ t.len := Nat.gcd_dvd_right _ _

theorem cycles_dvd_stride : t.cycles ∣ t.stride := Nat.gcd_dvd_left _ _

theorem path_residue (slot k : Nat) : t.path slot k % t.cycles = slot % t.cycles := by
  rw [Insertion.path, Nat.mod_mod_of_dvd _ (cycles_dvd_len t), Nat.add_mod,
    Nat.mod_eq_zero_of_dvd (Dvd.dvd.mul_left (cycles_dvd_stride t) k), Nat.add_zero, Nat.mod_mod]

theorem cycle_mul_stride : t.cycle * t.stride = t.len * (t.stride / t.cycles) := by
  rw [Insertion.cycle, Nat.div_mul_right_comm (cycles_dvd_len t), Nat.mul_div_assoc _
    (cycles_dvd_stride t)]

theorem path_cycle (slot k : Nat) : t.path slot (k % t.cycle) = t.path slot k := by
  rw [Insertion.path, Insertion.path]
  conv_rhs => rw [← Nat.mod_add_div k t.cycle]
  rw [Nat.add_mul, Nat.mul_right_comm, cycle_mul_stride, Nat.mul_assoc, ← Nat.add_assoc,
    Nat.add_mul_mod_self_left]

theorem cycle_pos (positive : 0 < t.len) : 0 < t.cycle :=
  Nat.div_pos (Nat.gcd_le_right _ positive) (Nat.gcd_pos_of_pos_right _ positive)

/-- A path reaches every slot of its residue, within one cycle. -/
theorem exists_path {slot x : Nat} (hs : slot < t.len) (hx : x < t.len)
    (same : x % t.cycles = slot % t.cycles) : ∃ k < t.cycle, t.path slot k = x := by
  have positive : 0 < t.len := by omega
  suffices reached : ∃ k, t.path slot k = x by
    obtain ⟨k, reached⟩ := reached
    exact ⟨k % t.cycle, Nat.mod_lt _ (cycle_pos t positive), (path_cycle t slot k).trans reached⟩
  by_cases small : t.cycles < t.len
  · obtain ⟨m, _, hm⟩ := Nat.exists_mul_mod_eq_gcd small
    have apart : t.cycles ∣ x + (t.len - slot) := by
      refine (Nat.modEq_zero_iff_dvd).mp ?_
      have whole : slot + (t.len - slot) = t.len := by omega
      calc x + (t.len - slot) ≡ slot + (t.len - slot) [MOD t.cycles] := Nat.ModEq.add_right _ same
        _ ≡ 0 [MOD t.cycles] := by
            rw [whole]
            exact (Nat.modEq_zero_iff_dvd).mpr (cycles_dvd_len t)
    obtain ⟨q, hq⟩ := apart
    refine ⟨m * q, ?_⟩
    have turns : m * q * t.stride ≡ x + (t.len - slot) [MOD t.len] := by
      calc m * q * t.stride = t.stride * m * q := by ring
        _ ≡ t.cycles * q [MOD t.len] := Nat.ModEq.mul_right q (hm.trans
            (Nat.mod_eq_of_lt small).symm)
        _ = x + (t.len - slot) := hq.symm
    calc t.path slot (m * q) = (slot + (x + (t.len - slot))) % t.len := turns.add_left slot
      _ = (x + t.len) % t.len := by congr 1; omega
      _ = x := by rw [Nat.add_mod_right, Nat.mod_eq_of_lt hx]
  · have all : t.cycles = t.len :=
      Nat.le_antisymm (Nat.gcd_le_right _ positive) (Nat.not_lt.mp small)
    rw [all, Nat.mod_eq_of_lt hx, Nat.mod_eq_of_lt hs] at same
    exact ⟨0, by rw [path_zero t hs, same]⟩

/-- The slots of a residue. -/
def Insertion.ring (c : Nat) : Finset Nat := (Finset.range t.len).filter fun x => x % t.cycles = c

theorem card_ring {c : Nat} (positive : 0 < t.cycles) (below : c < t.cycles) :
    (t.ring c).card = t.cycle := by
  have counted := Nat.count_modEq_card t.len positive c
  rw [Nat.count_eq_card_filter_range, Nat.mod_eq_zero_of_dvd (cycles_dvd_len t)] at counted
  simpa [Insertion.ring, Insertion.cycle, Nat.ModEq, Nat.mod_eq_of_lt below] using counted

end Paths

/-! ## What a step does -/

section Steps

variable {t : Insertion W} {s s' : State W} {schedule : List Nat} {row slot column : Nat}

@[simp] theorem write_same (cells : Nat → Nat → W) (slot column : Nat) (value : W) :
    write cells slot column value slot column = value := by
  simp [write]

theorem write_column {cells : Nat → Nat → W} {other : Nat} (different : other ≠ column) (value : W)
    (x : Nat) : write cells slot column value x other = cells x other := by
  simp [write, different]

theorem write_slot {cells : Nat → Nat → W} {other : Nat} (different : other ≠ slot) (value : W)
    (c : Nat) : write cells slot column value other c = cells other c := by
  simp [write, different]

@[simp] theorem claimed_proceed (slot column : Nat) :
    (t.proceed slot column).claimed = some slot := by
  rw [Insertion.proceed]
  split <;> rfl

variable [DecidableEq W]

theorem step_cases (ran : t.step s row = some s') :
    (∃ slot, s.thread row = .searching slot ∧ s.cells slot 0 = t.empty ∧
      s' = ⟨write s.cells slot 0 (t.record row 0),
        Function.update s.thread row (t.proceed slot 1)⟩) ∨
    (∃ slot, s.thread row = .searching slot ∧ s.cells slot 0 ≠ t.empty ∧
      s' = ⟨s.cells, Function.update s.thread row (.searching (t.next slot))⟩) ∨
    ∃ slot column, s.thread row = .writing slot column ∧
      s' = ⟨write s.cells slot column (t.record row column),
        Function.update s.thread row (t.proceed slot (column + 1))⟩ := by
  rw [Insertion.step] at ran
  cases state : s.thread row with
  | searching slot =>
      simp only [state] at ran
      split at ran
      case isTrue free => exact .inl ⟨slot, rfl, free, (Option.some.inj ran).symm⟩
      case isFalse taken => exact .inr (.inl ⟨slot, rfl, taken, (Option.some.inj ran).symm⟩)
  | writing slot column =>
      simp only [state] at ran
      exact .inr (.inr ⟨slot, column, rfl, (Option.some.inj ran).symm⟩)
  | done slot =>
      simp only [state] at ran
      cases ran

/-- A row that is not done has a next step. -/
theorem exists_step (unfinished : ∀ slot, s.thread row ≠ .done slot) :
    ∃ s', t.step s row = some s' := by
  rw [Insertion.step]
  cases state : s.thread row with
  | searching slot =>
      simp only
      split
      · exact ⟨_, rfl⟩
      · exact ⟨_, rfl⟩
  | writing slot column => exact ⟨_, rfl⟩
  | done slot => exact absurd state (unfinished slot)

end Steps

/-! ## What holds in every run -/

section Runs

variable (t : Insertion W)

/-- The columns of its slot that a row has written. -/
def progress : Thread → Nat
  | .searching _ => 0
  | .writing _ column => column
  | .done _ => t.width

/-- All slots on a row's path before a place are occupied. -/
def Passed (s : State W) (row k : Nat) : Prop :=
  ∀ j < k, s.cells (t.path (t.start row) j) 0 ≠ t.empty

/-- The invariant of the insertion. -/
structure Inv (schedule : List Nat) (s : State W) : Prop where
  known : ∀ row ∈ schedule, row < t.rows
  searching : ∀ row slot, s.thread row = .searching slot →
    slot = t.path (t.start row) (schedule.count row) ∧ Passed t s row (schedule.count row)
  writing : ∀ row slot column, s.thread row = .writing slot column → 0 < column ∧ column < t.width
  placed : ∀ row slot, (s.thread row).claimed = some slot → row < t.rows ∧
    ∃ k, slot = t.path (t.start row) k ∧ Passed t s row k ∧
      schedule.count row ≤ k + progress t (s.thread row) + 1
  key : ∀ row slot, (s.thread row).claimed = some slot → t.Real row →
    s.cells slot 0 = t.record row 0
  owned : ∀ slot, s.cells slot 0 ≠ t.empty →
    ∃ row, (s.thread row).claimed = some slot ∧ t.Real row
  unique : ∀ row row' slot, (s.thread row).claimed = some slot →
    (s.thread row').claimed = some slot → t.Real row → t.Real row' → row = row'

variable {t} {s s' : State W} {schedule : List Nat} {row : Nat}

theorem inv_init : Inv t [] t.init := by
  refine ⟨by simp, ?_, ?_, ?_, ?_, ?_, ?_⟩
  · rintro row slot ⟨⟩
    refine ⟨?_, fun j hj => absurd hj (Nat.not_lt_zero j)⟩
    rw [List.count_nil, path_zero t (t.start_lt row)]
  · rintro row slot column ⟨⟩
  · rintro row slot ⟨⟩
  · rintro row slot ⟨⟩
  · intro slot taken
    exact absurd rfl taken
  · rintro row row' slot ⟨⟩

/-- No real row has taken a slot that looks empty. -/
theorem not_taken (inv : Inv t schedule s) {slot other : Nat} (free : s.cells slot 0 = t.empty)
    (placed : (s.thread other).claimed = some slot) : ¬ t.Real other :=
  fun real => real ((inv.key other slot placed real).symm.trans free)

theorem count_other {other : Nat} (different : other ≠ row) :
    (row :: schedule).count other = schedule.count other :=
  List.count_cons_of_ne (Ne.symm different)

theorem inv_advance (inv : Inv t schedule s) (inside : row < t.rows) {slot : Nat}
    (state : s.thread row = .searching slot) (taken : s.cells slot 0 ≠ t.empty) :
    Inv t (row :: schedule)
      ⟨s.cells, Function.update s.thread row (.searching (t.next slot))⟩ := by
  have here := inv.searching row slot state
  have other {r x : Nat}
      (placed : (Function.update s.thread row (.searching (t.next slot)) r).claimed = some x) :
      r ≠ row ∧ (s.thread r).claimed = some x := by
    by_cases same : r = row
    · rw [same, Function.update_self] at placed
      cases placed
    · rw [Function.update_of_ne same] at placed
      exact ⟨same, placed⟩
  have kept {r x : Nat} (placed : (s.thread r).claimed = some x) :
      (Function.update s.thread row (.searching (t.next slot)) r).claimed = some x := by
    have different : r ≠ row := by
      rintro rfl
      rw [state] at placed
      cases placed
    rwa [Function.update_of_ne different]
  constructor
  · intro r member
    rcases List.mem_cons.mp member with rfl | member
    · exact inside
    · exact inv.known r member
  · intro r x search
    by_cases same : r = row
    · subst same
      simp only [Function.update_self, Thread.searching.injEq] at search
      rw [List.count_cons_self]
      constructor
      · rw [← search, here.1, next_path]
      · intro j hj
        rcases Nat.lt_succ_iff_lt_or_eq.mp hj with before | rfl
        · exact here.2 j before
        · rwa [here.1] at taken
    · simp only [Function.update_of_ne same] at search
      rw [count_other same]
      exact inv.searching r x search
  · intro r x c pending
    by_cases same : r = row
    · subst same
      simp only [Function.update_self, reduceCtorEq] at pending
    · exact inv.writing r x c (by simpa only [Function.update_of_ne same] using pending)
  · intro r x placed
    obtain ⟨different, placed⟩ := other placed
    simp only [count_other different, Function.update_of_ne different]
    exact inv.placed r x placed
  · intro r x placed real
    exact inv.key r x (other placed).2 real
  · intro x occupied
    obtain ⟨r, placed, real⟩ := inv.owned x occupied
    exact ⟨r, kept placed, real⟩
  · intro r r' x placed placed'
    exact inv.unique r r' x (other placed).2 (other placed').2

theorem inv_write (inv : Inv t schedule s) (inside : row < t.rows) {slot column : Nat}
    (state : s.thread row = .writing slot column) :
    Inv t (row :: schedule) ⟨write s.cells slot column (t.record row column),
      Function.update s.thread row (t.proceed slot (column + 1))⟩ := by
  obtain ⟨later, wide⟩ := inv.writing row slot column state
  have first (x : Nat) : write s.cells slot column (t.record row column) x 0 = s.cells x 0 :=
    write_column (Nat.ne_of_lt later) _ x
  have same (r : Nat) : (Function.update s.thread row (t.proceed slot (column + 1)) r).claimed =
      (s.thread r).claimed := by
    by_cases same : r = row
    · rw [same, Function.update_self, claimed_proceed, state, Thread.claimed]
    · rw [Function.update_of_ne same]
  constructor
  · intro r member
    rcases List.mem_cons.mp member with rfl | member
    · exact inside
    · exact inv.known r member
  · intro r x search
    have different : r ≠ row := by
      rintro rfl
      have none := congrArg Thread.claimed search
      rw [same, state] at none
      cases none
    simp only [Function.update_of_ne different] at search
    rw [count_other different]
    simp only [Passed, first]
    exact inv.searching r x search
  · intro r x c pending
    by_cases different : r = row
    · subst different
      simp only [Function.update_self, Insertion.proceed] at pending
      split at pending
      case isTrue more => cases pending; exact ⟨Nat.succ_pos column, more⟩
      case isFalse => cases pending
    · exact inv.writing r x c (by simpa only [Function.update_of_ne different] using pending)
  · intro r x placed
    rw [same] at placed
    obtain ⟨below, k, at', passed, bound⟩ := inv.placed r x placed
    refine ⟨below, k, at', fun j hj => by simpa only [first] using passed j hj, ?_⟩
    by_cases different : r = row
    · subst different
      rw [state, progress] at bound
      simp only [List.count_cons_self, Function.update_self, Insertion.proceed]
      split
      · rw [progress]; omega
      · rw [progress]; omega
    · simpa only [count_other different, Function.update_of_ne different] using bound
  · intro r x placed real
    rw [same] at placed
    simp only [first]
    exact inv.key r x placed real
  · intro x taken
    simp only [first] at taken
    obtain ⟨r, placed, real⟩ := inv.owned x taken
    exact ⟨r, (same r).trans placed, real⟩
  · intro r r' x placed placed'
    rw [same] at placed placed'
    exact inv.unique r r' x placed placed'

theorem progress_proceed (slot column : Nat) :
    progress t (t.proceed slot column) ≤ column := by
  rw [Insertion.proceed]
  split
  · exact Nat.le_refl column
  · rename_i wide
    exact Nat.not_lt.mp wide

/-- Every taken slot has been taken by one row only. -/
def Exclusive (s : State W) : Prop :=
  ∀ row row' slot, (s.thread row).claimed = some slot → (s.thread row').claimed = some slot →
    row = row'

/-- Without void rows every slot has one row at most. -/
theorem exclusive_of_real (inv : Inv t schedule s) (real : ∀ row < t.rows, t.Real row) :
    Exclusive s := by
  intro r r' slot placed placed'
  have inside := (inv.placed r slot placed).1
  have inside' := (inv.placed r' slot placed').1
  exact inv.unique r r' slot placed placed' (real r inside) (real r' inside')

/-- The residue of a taken slot is that of its row's start. -/
theorem placed_residue (inv : Inv t schedule s) {slot : Nat}
    (placed : (s.thread row).claimed = some slot) :
    slot % t.cycles = t.start row % t.cycles ∧ slot < t.len := by
  obtain ⟨inside, k, rfl, -⟩ := inv.placed row slot placed
  exact ⟨path_residue t _ k, Nat.mod_lt _ (Nat.zero_lt_of_lt (t.start_lt row))⟩

variable [DecidableEq W]

/-- An occupied slot stays occupied. -/
theorem step_keeps (inv : Inv t schedule s) (ran : t.step s row = some s') {slot : Nat}
    (taken : s.cells slot 0 ≠ t.empty) : s'.cells slot 0 ≠ t.empty := by
  obtain ⟨x, -, free, rfl⟩ | ⟨x, -, -, rfl⟩ | ⟨x, c, state, rfl⟩ := step_cases ran
  · have other : slot ≠ x := fun same => taken (same ▸ free)
    simpa only [write_slot other] using taken
  · exact taken
  · have later := (inv.writing row x c state).1
    simpa only [write_column (Nat.ne_of_lt later)] using taken

theorem step_passed (inv : Inv t schedule s) (ran : t.step s row = some s') {other k : Nat}
    (passed : Passed t s other k) : Passed t s' other k :=
  fun j hj => step_keeps inv ran (passed j hj)

theorem inv_claim (inv : Inv t schedule s) (inside : row < t.rows) {slot : Nat}
    (state : s.thread row = .searching slot) (free : s.cells slot 0 = t.empty)
    (ran : t.step s row = some ⟨write s.cells slot 0 (t.record row 0),
      Function.update s.thread row (t.proceed slot 1)⟩) :
    Inv t (row :: schedule) ⟨write s.cells slot 0 (t.record row 0),
      Function.update s.thread row (t.proceed slot 1)⟩ := by
  have here := inv.searching row slot state
  have own : (Function.update s.thread row (t.proceed slot 1) row).claimed = some slot := by simp
  have other {r x : Nat} (different : r ≠ row)
      (placed : (Function.update s.thread row (t.proceed slot 1) r).claimed = some x) :
      (s.thread r).claimed = some x := by
    rwa [Function.update_of_ne different] at placed
  constructor
  · intro r member
    rcases List.mem_cons.mp member with rfl | member
    · exact inside
    · exact inv.known r member
  · intro r x search
    have different : r ≠ row := by
      rintro rfl
      have := congrArg Thread.claimed search
      rw [own] at this
      cases this
    simp only [Function.update_of_ne different] at search
    rw [count_other different]
    have old := inv.searching r x search
    exact ⟨old.1, step_passed inv ran old.2⟩
  · intro r x c pending
    by_cases different : r = row
    · subst different
      simp only [Function.update_self, Insertion.proceed] at pending
      split at pending
      case isTrue more => cases pending; exact ⟨Nat.one_pos, more⟩
      case isFalse => cases pending
    · exact inv.writing r x c (by simpa only [Function.update_of_ne different] using pending)
  · intro r x placed
    by_cases different : r = row
    · subst different
      obtain rfl : slot = x := Option.some.inj (own.symm.trans placed)
      refine ⟨inside, schedule.count r, here.1, step_passed inv ran here.2, ?_⟩
      rw [List.count_cons_self]
      omega
    · obtain ⟨below, k, at', passed, bound⟩ := inv.placed r x (other different placed)
      refine ⟨below, k, at', step_passed inv ran passed, ?_⟩
      simpa only [count_other different, Function.update_of_ne different] using bound
  · intro r x placed real
    by_cases different : r = row
    · subst different
      obtain rfl : slot = x := Option.some.inj (own.symm.trans placed)
      exact write_same _ _ _ _
    · have held := other different placed
      have apart : x ≠ slot := by
        rintro rfl
        exact not_taken inv free held real
      simp only [write_slot apart]
      exact inv.key r x held real
  · intro x taken
    by_cases same : x = slot
    · subst same
      simp only [write_same] at taken
      exact ⟨row, own, taken⟩
    · simp only [write_slot same] at taken
      obtain ⟨r, placed, real⟩ := inv.owned x taken
      have different : r ≠ row := by
        rintro rfl
        rw [state] at placed
        cases placed
      exact ⟨r, by simpa only [Function.update_of_ne different] using placed, real⟩
  · intro r r' x placed placed' real real'
    by_cases different : r = row <;> by_cases different' : r' = row
    · rw [different, different']
    · subst different
      obtain rfl : slot = x := Option.some.inj (own.symm.trans placed)
      exact absurd real' (not_taken inv free (other different' placed'))
    · subst different'
      obtain rfl : slot = x := Option.some.inj (own.symm.trans placed')
      exact absurd real (not_taken inv free (other different placed))
    · exact inv.unique r r' x (other different placed) (other different' placed') real real'

theorem inv_step (inv : Inv t schedule s) (inside : row < t.rows)
    (ran : t.step s row = some s') : Inv t (row :: schedule) s' := by
  obtain ⟨slot, state, free, rfl⟩ | ⟨slot, state, taken, rfl⟩ | ⟨slot, column, state, rfl⟩ :=
    step_cases ran
  · exact inv_claim inv inside state free ran
  · exact inv_advance inv inside state taken
  · exact inv_write inv inside state

theorem run_inv (run : t.Run schedule s) : Inv t schedule s := by
  induction run with
  | init => exact inv_init
  | step _ inside ran ih => exact inv_step ih inside ran

/-! ## The written columns -/

theorem step_claimed (ran : t.step s row = some s') {other slot : Nat}
    (placed : (s.thread other).claimed = some slot) : (s'.thread other).claimed = some slot := by
  by_cases same : other = row
  · subst same
    obtain ⟨x, state, -, rfl⟩ | ⟨x, state, -, rfl⟩ | ⟨x, c, state, rfl⟩ := step_cases ran
    · rw [state] at placed
      cases placed
    · rw [state] at placed
      cases placed
    · rw [state] at placed
      simp only [Thread.claimed, Option.some.injEq] at placed
      simp [placed]
  · obtain ⟨x, -, -, rfl⟩ | ⟨x, -, -, rfl⟩ | ⟨x, c, -, rfl⟩ := step_cases ran <;>
      simpa only [Function.update_of_ne same] using placed

theorem exclusive_before (ran : t.step s row = some s') (exclusive : Exclusive s') : Exclusive s :=
  fun r r' slot placed placed' =>
    exclusive r r' slot (step_claimed ran placed) (step_claimed ran placed')

/-- A row that shares its slot with no other one has its columns there. -/
theorem run_columns (run : t.Run schedule s) (exclusive : Exclusive s) {slot : Nat}
    (placed : (s.thread row).claimed = some slot) {column : Nat}
    (written : column < progress t (s.thread row)) : s.cells slot column = t.record row column := by
  induction run generalizing row slot column with
  | init => cases placed
  | @step schedule s r s' earlier inside ran ih =>
      have before := exclusive_before ran exclusive
      have inv := run_inv earlier
      obtain ⟨x, state, free, rfl⟩ | ⟨x, state, taken, rfl⟩ | ⟨x, c, state, rfl⟩ := step_cases ran
      · by_cases same : row = r
        · subst same
          simp only [Function.update_self, claimed_proceed, Option.some.injEq] at placed written
          subst placed
          have bound := progress_proceed (t := t) x 1
          obtain rfl : column = 0 := by omega
          exact write_same _ _ _ _
        · have apart : slot ≠ x := by
            rintro rfl
            exact same (exclusive row r slot placed (by simp))
          simp only [Function.update_of_ne same] at placed written
          simp only [write_slot apart]
          exact ih before placed written
      · have different : row ≠ r := by
          rintro rfl
          simp only [Function.update_self] at placed
          cases placed
        simp only [Function.update_of_ne different] at placed written
        exact ih before placed written
      · by_cases same : row = r
        · subst same
          simp only [Function.update_self, claimed_proceed, Option.some.injEq] at placed written
          subst placed
          have bound := progress_proceed (t := t) x (c + 1)
          by_cases last : column = c
          · subst last
            exact write_same _ _ _ _
          · simp only [write_column last]
            refine ih before (by rw [state, Thread.claimed]) ?_
            rw [state, progress]
            omega
        · have apart : slot ≠ x := by
            rintro rfl
            exact same (exclusive row r slot placed (by simp))
          simp only [Function.update_of_ne same] at placed written
          simp only [write_slot apart]
          exact ih before placed written

/-- A slot that no row has taken is as it was. -/
theorem run_untaken (run : t.Run schedule s) {slot : Nat}
    (free : ∀ row, (s.thread row).claimed ≠ some slot) (column : Nat) :
    s.cells slot column = t.empty := by
  induction run with
  | init => rfl
  | @step schedule s r s' earlier inside ran ih =>
      have before := ih fun row placed => free row (step_claimed ran placed)
      obtain ⟨x, state, -, rfl⟩ | ⟨x, state, -, rfl⟩ | ⟨x, c, state, rfl⟩ := step_cases ran
      · have apart : slot ≠ x := by
          rintro rfl
          exact free r (by simp)
        simpa only [write_slot apart] using before
      · exact before
      · have apart : slot ≠ x := by
          rintro rfl
          exact free r (by simp)
        simpa only [write_slot apart] using before

/-- A written column of a taken slot is that of some row that has taken it. -/
theorem run_owner (run : t.Run schedule s) {slot : Nat}
    (placed : (s.thread row).claimed = some slot) {column : Nat}
    (written : column < progress t (s.thread row)) :
    ∃ other, (s.thread other).claimed = some slot ∧
      s.cells slot column = t.record other column := by
  induction run generalizing row slot column with
  | init => cases placed
  | @step schedule s r s' earlier inside ran ih =>
      have kept {other x : Nat} (held : (s.thread other).claimed = some x) :
          (s'.thread other).claimed = some x := step_claimed ran held
      obtain ⟨x, state, free, rfl⟩ | ⟨x, state, taken, rfl⟩ | ⟨x, c, state, rfl⟩ := step_cases ran
      · by_cases here : slot = x ∧ column = 0
        · obtain ⟨rfl, rfl⟩ := here
          exact ⟨r, by simp, write_same _ _ _ _⟩
        · have different : row ≠ r := by
            rintro rfl
            simp only [Function.update_self, claimed_proceed, Option.some.injEq] at placed written
            have bound := progress_proceed (t := t) x 1
            exact here ⟨placed.symm, by omega⟩
          simp only [Function.update_of_ne different] at placed written
          obtain ⟨other, held, same⟩ := ih placed written
          refine ⟨other, kept held, ?_⟩
          simp only [write, here, if_false]
          exact same
      · have different : row ≠ r := by
          rintro rfl
          simp only [Function.update_self] at placed
          cases placed
        simp only [Function.update_of_ne different] at placed written
        obtain ⟨other, held, same⟩ := ih placed written
        exact ⟨other, kept held, same⟩
      · by_cases here : slot = x ∧ column = c
        · obtain ⟨rfl, rfl⟩ := here
          exact ⟨r, by simp, write_same _ _ _ _⟩
        · have before : (s.thread row).claimed = some slot ∧
              column < progress t (s.thread row) := by
            by_cases same : row = r
            · subst same
              simp only [Function.update_self, claimed_proceed, Option.some.injEq]
                at placed written
              subst placed
              have bound := progress_proceed (t := t) x (c + 1)
              have other : column ≠ c := fun same => here ⟨rfl, same⟩
              rw [state]
              exact ⟨rfl, by rw [progress]; omega⟩
            · simp only [Function.update_of_ne same] at placed written
              exact ⟨placed, written⟩
          obtain ⟨other, held, same⟩ := ih before.1 before.2
          refine ⟨other, kept held, ?_⟩
          simp only [write, here, if_false]
          exact same

/-- No row writes a column beyond the width. -/
theorem run_outside (run : t.Run schedule s) {slot column : Nat} (later : 0 < column)
    (outside : t.width ≤ column) : s.cells slot column = t.empty := by
  induction run with
  | init => rfl
  | @step schedule s r s' earlier inside ran ih =>
      obtain ⟨x, state, -, rfl⟩ | ⟨x, state, -, rfl⟩ | ⟨x, c, state, rfl⟩ := step_cases ran
      · simpa only [write_column (Nat.ne_of_gt later)] using ih
      · exact ih
      · have wide := ((run_inv earlier).writing r x c state).2
        have apart : column ≠ c := by omega
        simpa only [write_column apart] using ih

/-! ## Termination -/

section Termination

variable (t) in
/-- The number of real rows that start at a residue. -/
def Insertion.crowd (c : Nat) : Nat :=
  ((Finset.range t.rows).filter fun row => t.Real row ∧ t.start row % t.cycles = c).card

variable (t) in
/-- No path gets all its slots taken. -/
def Insertion.Roomy : Prop := ∀ c < t.cycles, t.crowd c < t.cycle

/-- A full ring has as many rows as slots. -/
theorem crowded_of_full (inv : Inv t schedule s) {c : Nat} (below : c < t.cycles)
    (full : ∀ x ∈ t.ring c, s.cells x 0 ≠ t.empty) : t.cycle ≤ t.crowd c := by
  choose! owner placed real using inv.owned
  rw [← card_ring t (Nat.zero_lt_of_lt below) below, Insertion.crowd]
  refine Finset.card_le_card_of_injOn owner (fun x member => ?_) fun x hx y hy same => ?_
  · have taken := full x member
    have residue := (placed_residue inv (placed x taken)).1
    rw [(Finset.mem_filter.mp member).2] at residue
    simp only [Finset.coe_filter, Finset.mem_range, Set.mem_ofPred_eq]
    exact ⟨(inv.placed _ _ (placed x taken)).1, real x taken, residue.symm⟩
  · have here := placed x (full x hx)
    rw [same, placed y (full y hy)] at here
    exact (Option.some.inj here).symm

/-- When all rows are in and a ring has as many rows as slots, it is full. -/
theorem full_of_crowded (inv : Inv t schedule s) (finished : t.Finished s) {c : Nat}
    (below : c < t.cycles) (crowded : t.cycle ≤ t.crowd c) :
    ∀ x ∈ t.ring c, s.cells x 0 ≠ t.empty := by
  choose! slot state using finished
  have placed {r : Nat} (inside : r < t.rows) : (s.thread r).claimed = some (slot r) := by
    rw [state r inside, Thread.claimed]
  let members := (Finset.range t.rows).filter fun row => t.Real row ∧ t.start row % t.cycles = c
  have member {r : Nat} (hr : r ∈ members) :
      r < t.rows ∧ t.Real r ∧ t.start r % t.cycles = c := by
    simpa [members] using hr
  have image : members.image slot = t.ring c := by
    refine Finset.eq_of_subset_of_card_le (fun x hx => ?_) ?_
    · obtain ⟨r, hr, rfl⟩ := Finset.mem_image.mp hx
      obtain ⟨inside, -, residue⟩ := member hr
      have at' := placed_residue inv (placed inside)
      exact Finset.mem_filter.mpr ⟨Finset.mem_range.mpr at'.2, at'.1.trans residue⟩
    · rw [card_ring t (Nat.zero_lt_of_lt below) below, Finset.card_image_of_injOn]
      · exact crowded
      · intro r hr r' hr' same
        obtain ⟨inside, real, -⟩ := member hr
        obtain ⟨inside', real', -⟩ := member hr'
        refine inv.unique r r' (slot r) (placed inside) ?_ real real'
        rw [placed inside']
        exact congrArg some same.symm
  intro x hx
  rw [← image] at hx
  obtain ⟨r, hr, rfl⟩ := Finset.mem_image.mp hx
  obtain ⟨inside, real, -⟩ := member hr
  rw [inv.key r (slot r) (placed inside) real]
  exact real

/-- The walk from a slot meets one that looks empty. -/
def Stops (t : Insertion W) (s : State W) (slot : Nat) : Prop :=
  ∃ k, s.cells (t.path slot k) 0 = t.empty

theorem roomy_free (inv : Inv t schedule s) (roomy : t.Roomy) {slot : Nat} (inside : slot < t.len) :
    ∃ k < t.cycle, s.cells (t.path slot k) 0 = t.empty := by
  have below : slot % t.cycles < t.cycles :=
    Nat.mod_lt _ (Nat.gcd_pos_of_pos_right _ (Nat.zero_lt_of_lt inside))
  by_contra occupied
  refine absurd (crowded_of_full inv below fun x member => ?_) (Nat.not_le.mpr (roomy _ below))
  obtain ⟨hx, residue⟩ := Finset.mem_filter.mp member
  obtain ⟨k, hk, rfl⟩ := exists_path t inside (Finset.mem_range.mp hx) residue
  exact fun free => occupied ⟨k, hk, free⟩

theorem passed_lt (inv : Inv t schedule s) (roomy : t.Roomy) {k : Nat}
    (passed : Passed t s row k) : k < t.cycle := by
  obtain ⟨j, hj, free⟩ := roomy_free inv roomy (t.start_lt row)
  by_contra long
  exact passed j (by omega) free

theorem count_le (inv : Inv t schedule s) (roomy : t.Roomy) (row : Nat) :
    schedule.count row ≤ t.cycle + t.width + 1 := by
  cases state : s.thread row with
  | searching slot =>
      have few := passed_lt inv roomy (inv.searching row slot state).2
      omega
  | writing slot column =>
      obtain ⟨-, k, -, passed, bound⟩ := inv.placed row slot (by rw [state, Thread.claimed])
      have few := passed_lt inv roomy passed
      have wide := (inv.writing row slot column state).2
      rw [state, progress] at bound
      omega
  | done slot =>
      obtain ⟨-, k, -, passed, bound⟩ := inv.placed row slot (by rw [state, Thread.claimed])
      have few := passed_lt inv roomy passed
      rw [state, progress] at bound
      omega

/-- Every run is short. -/
theorem length_le (inv : Inv t schedule s) (roomy : t.Roomy) :
    schedule.length ≤ t.rows * (t.cycle + t.width + 1) := by
  rw [← List.sum_toFinset_count_eq_length]
  have rows : schedule.toFinset.card ≤ t.rows := by
    rw [← Finset.card_range t.rows]
    refine Finset.card_le_card fun r member => ?_
    exact Finset.mem_range.mpr (inv.known r (List.mem_toFinset.mp member))
  calc ∑ r ∈ schedule.toFinset, schedule.count r
      ≤ schedule.toFinset.card * (t.cycle + t.width + 1) :=
        Finset.sum_le_card_nsmul _ _ _ fun r _ => count_le inv roomy r
    _ ≤ t.rows * (t.cycle + t.width + 1) := Nat.mul_le_mul_right _ rows

variable (t) in
/-- The insertion ends in every order of the steps. -/
def Insertion.Bounded : Prop := ∃ bound, ∀ schedule s, t.Run schedule s → schedule.length ≤ bound

/-- A run that cannot go on has put all rows in. -/
theorem exists_finished (bounded : t.Bounded) : ∃ schedule s, t.Run schedule s ∧ t.Finished s := by
  obtain ⟨bound, bounded⟩ := bounded
  by_contra none
  have long (n : Nat) : ∃ schedule s, t.Run schedule s ∧ schedule.length = n := by
    induction n with
    | zero => exact ⟨[], t.init, .init, rfl⟩
    | succ n ih =>
        obtain ⟨schedule, s, run, rfl⟩ := ih
        have unfinished : ¬ t.Finished s := fun finished => none ⟨schedule, s, run, finished⟩
        simp only [Insertion.Finished, not_forall, not_exists] at unfinished
        obtain ⟨row, inside, unfinished⟩ := unfinished
        obtain ⟨s', ran⟩ := exists_step (t := t) unfinished
        exact ⟨row :: schedule, s', .step run inside ran, rfl⟩
  obtain ⟨schedule, s, run, length⟩ := long (bound + 1)
  have short := bounded schedule s run
  omega

/-- All insertions end and, once they have, no walk from the start of a row goes on
forever, exactly if every path keeps a free slot. -/
theorem ends_iff_roomy :
    (t.Bounded ∧ ∀ schedule s, t.Run schedule s → t.Finished s →
      ∀ row < t.rows, Stops t s (t.start row)) ↔ t.Roomy := by
  constructor
  · rintro ⟨bounded, stops⟩ c below
    obtain ⟨schedule, s, run, finished⟩ := exists_finished bounded
    by_contra crowded
    rw [Nat.not_lt] at crowded
    have full := full_of_crowded (run_inv run) finished below crowded
    have some : 0 < t.crowd c := by
      have positive := cycle_pos t (Nat.zero_lt_of_lt (t.start_lt 0))
      omega
    obtain ⟨row, member⟩ := Finset.card_pos.mp some
    obtain ⟨inside, -, residue⟩ := Finset.mem_filter.mp member
    obtain ⟨k, free⟩ := stops schedule s run finished row (Finset.mem_range.mp inside)
    refine full _ (Finset.mem_filter.mpr ⟨Finset.mem_range.mpr ?_, ?_⟩) free
    · exact Nat.mod_lt _ (Nat.zero_lt_of_lt (t.start_lt row))
    · rw [path_residue, residue]
  · intro roomy
    refine ⟨⟨_, fun schedule s run => length_le (run_inv run) roomy⟩, ?_⟩
    intro schedule s run _ row _
    obtain ⟨k, _, free⟩ := roomy_free (run_inv run) roomy (t.start_lt row)
    exact ⟨k, free⟩

end Termination

end Runs

/-! ## Walks over a table -/

section Walks

variable (t : Insertion W) (free matching : Nat → Bool)

/-- The matching slots from a slot up to the first free one; `none` if the steps run out. -/
def walkAll : Nat → Nat → Option (List Nat)
  | 0, _ => none
  | fuel + 1, slot =>
      if free slot then some []
      else (walkAll fuel (t.next slot)).map fun found =>
        if matching slot then slot :: found else found

/-- The first matching slot before the first free one. -/
def walkFirst : Nat → Nat → Option (Option Nat)
  | 0, _ => none
  | fuel + 1, slot =>
      if free slot then some none
      else if matching slot then some (some slot)
      else walkFirst fuel (t.next slot)

variable {t free matching}

theorem path_next (slot j : Nat) : t.path (t.next slot) j = t.path slot (j + 1) := by
  rw [Insertion.next, Insertion.path, Insertion.path, Nat.mod_add_mod, Nat.add_mul, Nat.one_mul,
    Nat.add_assoc, Nat.add_comm t.stride]

theorem next_lt {slot : Nat} (inside : slot < t.len) : t.next slot < t.len :=
  Nat.mod_lt _ (Nat.zero_lt_of_lt inside)

/-- The slots of a path up to a place. -/
def trail (t : Insertion W) (slot k : Nat) : List Nat := (List.range k).map (t.path slot)

theorem trail_succ {slot k : Nat} (inside : slot < t.len) :
    trail t slot (k + 1) = slot :: trail t (t.next slot) k := by
  rw [trail, List.range_succ_eq_map, List.map_cons, path_zero t inside, List.map_map, trail]
  exact congrArg _ (List.map_congr_left fun j _ => (path_next slot j).symm)

theorem mem_trail {slot k x : Nat} : x ∈ trail t slot k ↔ ∃ j < k, t.path slot j = x := by
  simp [trail]

/-- A walk to the free slot at place `k`. -/
def EndsAt (t : Insertion W) (free : Nat → Bool) (slot k : Nat) : Prop :=
  free (t.path slot k) = true ∧ ∀ j < k, free (t.path slot j) = false

theorem endsAt_succ {slot k : Nat} (inside : slot < t.len) (taken : free slot = false)
    (ends : EndsAt t free (t.next slot) k) : EndsAt t free slot (k + 1) := by
  rw [EndsAt, path_next] at ends
  refine ⟨ends.1, fun j hj => ?_⟩
  cases j with
  | zero => rwa [path_zero t inside]
  | succ j => rw [← path_next]; exact ends.2 j (Nat.lt_of_succ_lt_succ hj)

theorem walkAll_eq {fuel slot : Nat} (inside : slot < t.len) {found : List Nat}
    (ran : walkAll t free matching fuel slot = some found) :
    ∃ k, EndsAt t free slot k ∧ found = (trail t slot k).filter matching := by
  induction fuel generalizing slot found with
  | zero => cases ran
  | succ fuel ih =>
      rw [walkAll] at ran
      cases here : free slot with
      | true =>
          rw [here, if_pos rfl] at ran
          refine ⟨0, ⟨by rwa [path_zero t inside], fun j hj => absurd hj (Nat.not_lt_zero j)⟩, ?_⟩
          exact (Option.some.inj ran).symm
      | false =>
          rw [here, if_neg Bool.false_ne_true, Option.map_eq_some_iff] at ran
          obtain ⟨rest, walked, rfl⟩ := ran
          obtain ⟨k, ends, rfl⟩ := ih (next_lt inside) walked
          refine ⟨k + 1, endsAt_succ inside here ends, ?_⟩
          rw [trail_succ inside, List.filter_cons]

theorem endsAt_unique {slot k k' : Nat} (ends : EndsAt t free slot k)
    (ends' : EndsAt t free slot k') : k = k' := by
  rcases Nat.lt_trichotomy k k' with before | same | after
  · exact absurd (ends.1.symm.trans (ends'.2 k before)) Bool.noConfusion
  · exact same
  · exact absurd (ends'.1.symm.trans (ends.2 k' after)) Bool.noConfusion

/-- However many steps are allowed, a walk that ends finds the same slots. -/
theorem walkAll_unique {fuel fuel' slot : Nat} (inside : slot < t.len) {found found' : List Nat}
    (ran : walkAll t free matching fuel slot = some found)
    (ran' : walkAll t free matching fuel' slot = some found') : found = found' := by
  obtain ⟨k, ends, rfl⟩ := walkAll_eq inside ran
  obtain ⟨k', ends', rfl⟩ := walkAll_eq inside ran'
  rw [endsAt_unique ends ends']

/-- The single match is the first of all matches. -/
theorem walkFirst_of_walkAll {fuel slot : Nat} {found : List Nat}
    (ran : walkAll t free matching fuel slot = some found) :
    walkFirst t free matching fuel slot = some found.head? := by
  induction fuel generalizing slot found with
  | zero => cases ran
  | succ fuel ih =>
      rw [walkAll] at ran
      rw [walkFirst]
      cases here : free slot with
      | true =>
          rw [here, if_pos rfl] at ran
          obtain rfl := Option.some.inj ran
          rfl
      | false =>
          rw [here, if_neg Bool.false_ne_true, Option.map_eq_some_iff] at ran
          obtain ⟨rest, walked, rfl⟩ := ran
          rw [if_neg Bool.false_ne_true]
          cases hit : matching slot with
          | true => simp
          | false => simpa using ih walked

/-- However many steps are allowed, a walk that ends finds the same slot. -/
theorem walkFirst_unique {fuel fuel' slot : Nat} {found found' : Option Nat}
    (ran : walkFirst t free matching fuel slot = some found)
    (ran' : walkFirst t free matching fuel' slot = some found') : found = found' := by
  induction fuel generalizing fuel' slot with
  | zero => cases ran
  | succ fuel ih =>
      cases fuel' with
      | zero => cases ran'
      | succ fuel' =>
          rw [walkFirst] at ran ran'
          cases here : free slot with
          | true =>
              rw [here, if_pos rfl] at ran ran'
              exact Option.some.inj (ran.symm.trans ran')
          | false =>
              rw [here, if_neg Bool.false_ne_true] at ran ran'
              cases hit : matching slot with
              | true =>
                  rw [hit, if_pos rfl] at ran ran'
                  exact Option.some.inj (ran.symm.trans ran')
              | false =>
                  rw [hit, if_neg Bool.false_ne_true] at ran ran'
                  exact ih ran ran'

/-- Where a walk for the first match ends. -/
theorem walkFirst_eq {fuel slot : Nat} (inside : slot < t.len) {found : Option Nat}
    (ran : walkFirst t free matching fuel slot = some found) :
    (found = none ∧ ∃ k, EndsAt t free slot k ∧ ∀ x ∈ trail t slot k, matching x = false) ∨
      ∃ x, found = some x ∧ matching x = true ∧ free x = false ∧
        ∃ k, x = t.path slot k ∧ ∀ j < k, free (t.path slot j) = false := by
  induction fuel generalizing slot with
  | zero => cases ran
  | succ fuel ih =>
      rw [walkFirst] at ran
      cases here : free slot with
      | true =>
          rw [here, if_pos rfl] at ran
          refine .inl ⟨(Option.some.inj ran).symm, 0, ⟨by rwa [path_zero t inside], ?_⟩, ?_⟩
          · exact fun j hj => absurd hj (Nat.not_lt_zero j)
          · simp [trail]
      | false =>
          rw [here, if_neg Bool.false_ne_true] at ran
          cases hit : matching slot with
          | true =>
              rw [hit, if_pos rfl] at ran
              refine .inr ⟨slot, (Option.some.inj ran).symm, hit, here, 0, ?_, ?_⟩
              · rw [path_zero t inside]
              · exact fun j hj => absurd hj (Nat.not_lt_zero j)
          | false =>
              rw [hit, if_neg Bool.false_ne_true] at ran
              rcases ih (next_lt inside) ran with ⟨rfl, k, ends, missed⟩ |
                ⟨x, rfl, hit', taken, k, rfl, passed⟩
              · refine .inl ⟨rfl, k + 1, endsAt_succ inside here ends, ?_⟩
                rw [trail_succ inside]
                exact List.forall_mem_cons.mpr ⟨hit, missed⟩
              · refine .inr ⟨_, rfl, hit', taken, k + 1, path_next slot k, fun j hj => ?_⟩
                cases j with
                | zero => rwa [path_zero t inside]
                | succ j => rw [← path_next]; exact passed j (Nat.lt_of_succ_lt_succ hj)

/-- A walk towards a free slot has a result. -/
theorem exists_walkAll (free matching : Nat → Bool) {slot k : Nat} (inside : slot < t.len)
    (ahead : free (t.path slot k) = true) :
    ∃ fuel found, walkAll t free matching fuel slot = some found := by
  induction k generalizing slot with
  | zero =>
      rw [path_zero t inside] at ahead
      exact ⟨1, [], by rw [walkAll, if_pos ahead]⟩
  | succ k ih =>
      rw [← path_next] at ahead
      obtain ⟨fuel, found, ran⟩ := ih (next_lt inside) ahead
      cases here : free slot with
      | true => exact ⟨1, [], by rw [walkAll, if_pos here]⟩
      | false => exact ⟨fuel + 1, _, by rw [walkAll, if_neg (by simp [here]), ran, Option.map_some]⟩

theorem exists_walkFirst (free matching : Nat → Bool) {slot k : Nat} (inside : slot < t.len)
    (ahead : free (t.path slot k) = true) :
    ∃ fuel found, walkFirst t free matching fuel slot = some found := by
  obtain ⟨fuel, found, ran⟩ := exists_walkAll free matching inside ahead
  exact ⟨fuel, _, walkFirst_of_walkAll ran⟩

theorem path_path (slot i n : Nat) : t.path (t.path slot i) n = t.path slot (i + n) := by
  rw [Insertion.path, Insertion.path, Insertion.path, Nat.mod_add_mod, Nat.add_mul, Nat.add_assoc]

/-- A walk that ends meets no slot twice. -/
theorem trail_nodup {slot k : Nat} (ends : EndsAt t free slot k) : (trail t slot k).Nodup := by
  have apart (i j : Nat) (before : i < j) (hj : j < k) : t.path slot i ≠ t.path slot j := by
    intro same
    have later : t.path slot (i + (k - j)) = t.path slot k := by
      rw [← path_path, same, path_path, Nat.add_sub_cancel' (Nat.le_of_lt hj)]
    have taken := ends.2 (i + (k - j)) (by omega)
    rw [later, ends.1] at taken
    cases taken
  refine List.nodup_range.map_on fun i hi j hj same => ?_
  rw [List.mem_range] at hi hj
  rcases Nat.lt_trichotomy i j with before | rfl | after
  · exact absurd same (apart i j before hj)
  · rfl
  · exact absurd same.symm (apart j i after hi)

end Walks

/-! ## Walks over a finished table -/

section Finished

variable {t : Insertion W} {s : State W} {schedule : List Nat} [DecidableEq W]

def looksEmpty (t : Insertion W) (s : State W) (slot : Nat) : Bool := s.cells slot 0 = t.empty

/-- A walk from the start of an inserted real row comes by its slot. -/
theorem mem_trail_of_placed (inv : Inv t schedule s) {row slot k : Nat}
    (placed : (s.thread row).claimed = some slot) (real : t.Real row)
    (ends : EndsAt t (looksEmpty t s) (t.start row) k) : slot ∈ trail t (t.start row) k := by
  obtain ⟨-, j, rfl, passed, -⟩ := inv.placed row slot placed
  refine mem_trail.mpr ⟨j, ?_, rfl⟩
  by_contra late
  have free : s.cells (t.path (t.start row) k) 0 = t.empty := by
    simpa [looksEmpty] using ends.1
  rcases Nat.lt_or_eq_of_le (Nat.not_lt.mp late) with before | rfl
  · exact passed k before free
  · exact real ((inv.key row _ placed real).symm.trans free)

/-- Every slot that a walk passes belongs to a real row. -/
theorem owner_of_taken (inv : Inv t schedule s) {slot : Nat}
    (taken : looksEmpty t s slot = false) :
    ∃ row < t.rows, (s.thread row).claimed = some slot ∧ t.Real row := by
  have occupied : s.cells slot 0 ≠ t.empty := by simpa [looksEmpty] using taken
  obtain ⟨row, placed, real⟩ := inv.owned slot occupied
  exact ⟨row, (inv.placed row slot placed).1, placed, real⟩

end Finished

end OpenAddressing
