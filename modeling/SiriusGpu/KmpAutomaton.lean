import Mathlib
import SiriusGpu.GpuMemory
import SiriusGpu.PatternPrefixes
import SiriusGpu.StringComparison

/-!
# The automaton table of string matching

`DoStringMatching` fills a table of 256 entries for each state of its automaton; the kernels read
it from the characters of the strings. The entry of a character is 128 behind its value. Where
`char` is unsigned, characters from 128 on have theirs in the row behind.
-/

namespace KmpAutomaton

open GpuMemory (Exception)
open PatternPrefixes
open StringComparison (charValue)

section Model

def charsInByte : Nat := 256

def charIncrement : Int := 128

def charIndex (signed : Bool) (b : UInt8) : Nat := (charValue signed b + charIncrement).toNat

/-- A flat table of integers. -/
abbrev Table := Nat → Nat

/-- The first turns of the loop that copies the row `X` to the row `j`. -/
def copyPlaces (table : Table) (j X count : Nat) : Table :=
  (List.range count).foldl (fun table c =>
    Function.update table (j * charsInByte + c) (table (X * charsInByte + c))) table

def copyRow (table : Table) (j X : Nat) : Table := copyPlaces table j X charsInByte

/-- The loop over the characters after the first. The vector of the table ends at `size`. -/
def fillRows (signed : Bool) (size : Nat) : List UInt8 → (j X : Nat) → Table →
    Except Exception Table
  | [], _, _, table => .ok table
  | b :: rest, j, X, table =>
    let table := copyRow table j X
    if j * charsInByte + charIndex signed b ≥ size then .error .fault
    else
      let table := Function.update table (j * charsInByte + charIndex signed b) (j + 1)
      fillRows signed size rest (j + 1) (table (X * charsInByte + charIndex signed b)) table

/-- The table of a pattern, as the kernels see it: behind its end is what the device memory holds
there. Its size is a product of 32-bit integers, undefined when it overflows, and without a first
character there is no first row. -/
def kmpAutomato (signed : Bool) (past : Table) (matchString : List UInt8) :
    Except Exception Table :=
  match matchString with
  | [] => .error .fault
  | first :: rest =>
    let size := matchString.length * charsInByte
    if size ≥ 2 ^ 31 ∨ charIndex signed first ≥ size then .error .fault
    else
      match fillRows signed size rest 1 0
          (Function.update (fun _ => 0) (charIndex signed first) 1) with
      | .error exception => .error exception
      | .ok table => .ok fun place => if place < size then table place else past place

/-- A step of the kernels before a reset. -/
def advance (signed : Bool) (table : Table) (j : Nat) (b : UInt8) : Nat :=
  table (j * charsInByte + charIndex signed b)

def runFrom (signed : Bool) (table : Table) (j : Nat) (text : List UInt8) : Nat :=
  text.foldl (advance signed table) j

end Model

section Meaning

/-- A character with an entry in the row of its state. -/
def Readable (signed : Bool) (b : UInt8) : Prop := signed = true ∨ b.toNat < 128

/-- In a run over characters of an alphabet that did not accept before its end, the state is the
length of the longest prefix of the pattern at the end of the text; and the run accepts for the
first time where the pattern occurs for the first time. -/
structure Recognizes (signed : Bool) (alphabet : UInt8 → Prop) (pattern : List UInt8)
    (table : Table) : Prop where
  state : ∀ text, (∀ b ∈ text, alphabet b) → (∀ before, before <+: text → before ≠ text →
      runFrom signed table 0 before ≠ pattern.length) →
    runFrom signed table 0 text = longest pattern text
  accepts : ∀ text, (∀ b ∈ text, alphabet b) → ((runFrom signed table 0 text = pattern.length ∧
      ∀ before, before <+: text → before ≠ text →
        runFrom signed table 0 before ≠ pattern.length) ↔
    (pattern <:+ text ∧ ∀ before, before <+: text → before ≠ text → ¬ pattern <:+ before))

end Meaning

section Characters

variable {signed : Bool} {a b : UInt8}

instance : Decidable (Readable signed b) := inferInstanceAs (Decidable (_ ∨ _))

theorem charIndex_eq (signed : Bool) (b : UInt8) : charIndex signed b =
    if signed = true then (b.toNat + 128) % 256 else b.toNat + 128 := by
  have small := b.toNat_lt
  rw [charIndex, charValue, charIncrement]
  cases signed with
  | false =>
    simp only [Bool.false_eq_true, false_and, if_false]
    omega
  | true =>
    simp only [true_and, if_true]
    split <;> omega

theorem charIndex_lt_iff : charIndex signed b < charsInByte ↔ Readable signed b := by
  rw [charIndex_eq, Readable, charsInByte]
  cases signed with
  | false =>
    simp only [Bool.false_eq_true, if_false, false_or]
    omega
  | true => simp [Nat.mod_lt]

theorem charIndex_lt (readable : Readable signed b) : charIndex signed b < charsInByte :=
  charIndex_lt_iff.mpr readable

theorem charIndex_injective (same : charIndex signed a = charIndex signed b) : a = b := by
  have small := a.toNat_lt
  have small' := b.toNat_lt
  rw [charIndex_eq, charIndex_eq] at same
  refine UInt8.toNat.inj ?_
  split at same <;> omega

end Characters

section Rows

variable {signed : Bool} {table : Table} {j X i : Nat} {b : UInt8}

theorem copyPlaces_place (apart : X < j) (count : Nat) (small : count ≤ charsInByte)
    (place : Nat) : copyPlaces table j X count place =
      if j * charsInByte ≤ place ∧ place < j * charsInByte + count then
        table (X * charsInByte + (place - j * charsInByte))
      else table place := by
  induction count generalizing place with
  | zero =>
    rw [if_neg (by omega)]
    rfl
  | succ count ih =>
    have below : X * charsInByte + charsInByte ≤ j * charsInByte := by
      rw [← Nat.succ_mul]
      exact Nat.mul_le_mul_right _ apart
    have turn : copyPlaces table j X (count + 1) = Function.update (copyPlaces table j X count)
        (j * charsInByte + count) (copyPlaces table j X count (X * charsInByte + count)) := by
      rw [copyPlaces, List.range_succ, List.foldl_append]
      rfl
    rw [turn]
    by_cases last : place = j * charsInByte + count
    · subst last
      rw [Function.update_self, ih (by omega), if_neg (by omega), if_pos (by omega),
        Nat.add_sub_cancel_left]
    · rw [Function.update_of_ne last, ih (by omega)]
      exact if_congr (by omega) rfl rfl

/-- The row is copied, and all other places are kept. -/
theorem copyRow_place (apart : X < j) (place : Nat) : copyRow table j X place =
    if j * charsInByte ≤ place ∧ place < j * charsInByte + charsInByte then
      table (X * charsInByte + (place - j * charsInByte))
    else table place :=
  copyPlaces_place apart charsInByte le_rfl place

theorem copyRow_row (apart : X < j) (readable : Readable signed b) :
    copyRow table j X (j * charsInByte + charIndex signed b) =
      table (X * charsInByte + charIndex signed b) := by
  have small := charIndex_lt readable
  rw [copyRow_place apart, if_pos (by omega), Nat.add_sub_cancel_left]

theorem copyRow_before (apart : X < j) (below : i < j) (readable : Readable signed b) :
    copyRow table j X (i * charsInByte + charIndex signed b) =
      table (i * charsInByte + charIndex signed b) := by
  have small := charIndex_lt readable
  have room : (i + 1) * charsInByte ≤ j * charsInByte := Nat.mul_le_mul_right _ below
  rw [Nat.succ_mul] at room
  rw [copyRow_place apart, if_neg (by omega)]

end Rows

section Filling

variable {signed : Bool} {pattern rest : List UInt8} {table : Table} {j X i : Nat} {b : UInt8}

/-- The rows of the states below `j` are right. -/
def Filled (signed : Bool) (pattern : List UInt8) (table : Table) (j : Nat) : Prop :=
  ∀ i < j, ∀ b, Readable signed b → table (i * charsInByte + charIndex signed b) = next pattern i b

theorem place_ne (other : i ≠ j ∨ charIndex signed b ≠ X) (readable : Readable signed b)
    (small : X < charsInByte) : i * charsInByte + charIndex signed b ≠ j * charsInByte + X := by
  have low := charIndex_lt readable
  unfold charsInByte at *
  omega

theorem filled_one (some : 0 < pattern.length) :
    Filled signed pattern (Function.update (fun _ => 0) (charIndex signed pattern[0]) 1) 1 := by
  intro i below b _
  obtain rfl : i = 0 := by omega
  rw [next_zero some, Nat.zero_mul, Nat.zero_add]
  by_cases first : pattern[0] = b
  · rw [if_pos first, first, Function.update_self]
  · rw [if_neg first, Function.update_of_ne fun same => first (charIndex_injective same).symm]

/-- One turn of the loop fills one row more. -/
theorem Filled.turn (filled : Filled signed pattern table j) (positive : 0 < j)
    (inside : j < pattern.length) (readable : Readable signed pattern[j]) :
    Filled signed pattern (Function.update (copyRow table j (restart pattern j))
      (j * charsInByte + charIndex signed pattern[j]) (j + 1)) (j + 1) := by
  have apart := restart_lt positive inside.le
  have small := charIndex_lt readable
  intro i below b read
  obtain rfl | before := Nat.eq_or_lt_of_le (Nat.le_of_lt_succ below)
  · by_cases continues : pattern[i] = b
    · rw [← continues, Function.update_self, next_match inside]
    · have other : charIndex signed b ≠ charIndex signed pattern[i] := fun same =>
        continues (charIndex_injective same).symm
      rw [Function.update_of_ne (place_ne (.inr other) read small), copyRow_row apart read,
        filled _ apart b read, next_mismatch positive inside continues]
  · rw [Function.update_of_ne (place_ne (.inl before.ne) read small),
      copyRow_before apart before read, filled i before b read]

theorem fillRows_filled (filled : Filled signed pattern table j) (positive : 0 < j)
    (left : pattern.drop j = rest) (inside : j ≤ pattern.length)
    (readable : ∀ b ∈ pattern, Readable signed b) :
    ∃ all, fillRows signed (pattern.length * charsInByte) rest j (restart pattern j) table =
      .ok all ∧ Filled signed pattern all pattern.length := by
  induction rest generalizing j table with
  | nil =>
    have all : pattern.length ≤ j := List.drop_eq_nil_iff.mp left
    exact ⟨table, rfl, fun i below => filled i (by omega)⟩
  | cons b rest ih =>
    have more : j < pattern.length := by
      by_contra none
      rw [List.drop_eq_nil_of_le (by omega)] at left
      cases left
    rw [List.drop_eq_getElem_cons more, List.cons.injEq] at left
    obtain ⟨rfl, left⟩ := left
    have known := readable _ (List.getElem_mem more)
    have filled' := filled.turn positive more known
    have restarts := filled' _ (Nat.lt_succ_of_lt (restart_lt positive inside)) pattern[j] known
    rw [← restart_succ positive more] at restarts
    have room : (j + 1) * charsInByte ≤ pattern.length * charsInByte :=
      Nat.mul_le_mul_right _ more
    have small := charIndex_lt known
    rw [Nat.succ_mul] at room
    obtain ⟨all, ran, right⟩ := ih filled' (Nat.succ_pos j) left more
    refine ⟨all, ?_, right⟩
    rw [fillRows, if_neg (by omega)]
    simp only [restarts]
    exact ran

end Filling

section Runs

variable {signed : Bool} {pattern text : List UInt8} {table past : Table}

theorem runFrom_snoc (b : UInt8) :
    runFrom signed table 0 (text ++ [b]) =
      advance signed table (runFrom signed table 0 text) b := by
  rw [runFrom, List.foldl_append]
  rfl

theorem before_snoc {before : List UInt8} {b : UInt8} (start : before <+: text) :
    before <+: text ++ [b] ∧ before ≠ text ++ [b] := by
  refine ⟨start.trans (List.prefix_append _ _), ?_⟩
  rintro rfl
  have length := start.length_le
  rw [List.length_append, List.length_singleton] at length
  omega

theorem run_longest (filled : Filled signed pattern table pattern.length)
    (readable : ∀ b ∈ text, Readable signed b)
    (first : ∀ before, before <+: text → before ≠ text → ¬ pattern <:+ before) :
    runFrom signed table 0 text = longest pattern text := by
  induction text using List.reverseRecOn with
  | nil => rw [longest_nil]; rfl
  | append_singleton text b ih =>
    have earlier := ih (fun b member => readable b (List.mem_append_left _ member))
      fun before start _ => first before (before_snoc start).1 (before_snoc start).2
    have running : longest pattern text < pattern.length := by
      refine lt_of_le_of_ne longest_le fun last => ?_
      exact first text (before_snoc List.prefix_rfl).1 (before_snoc List.prefix_rfl).2
        (longest_eq_length.mp last)
    have known := readable b (List.mem_append_right _ (List.mem_singleton.mpr rfl))
    rw [runFrom_snoc, earlier, advance, filled _ running b known, longest_snoc]

/-- Before its end a run has accepted nowhere exactly when the pattern has occurred nowhere. -/
theorem first_iff (filled : Filled signed pattern table pattern.length)
    (readable : ∀ b ∈ text, Readable signed b) :
    (∀ before, before <+: text → before ≠ text →
      runFrom signed table 0 before ≠ pattern.length) ↔
        ∀ before, before <+: text → before ≠ text → ¬ pattern <:+ before := by
  induction text using List.reverseRecOn with
  | nil =>
    have none : ∀ before : List UInt8, before <+: [] → before ≠ [] → False :=
      fun before start other => other (List.prefix_nil.mp start)
    exact ⟨fun _ before start other => absurd (none before start other) id,
      fun _ before start other => absurd (none before start other) id⟩
  | append_singleton text b ih =>
    have known : ∀ b ∈ text, Readable signed b :=
      fun b member => readable b (List.mem_append_left _ member)
    have split : ∀ {P : List UInt8 → Prop},
        (∀ before, before <+: text ++ [b] → before ≠ text ++ [b] → P before) ↔
          (∀ before, before <+: text → before ≠ text → P before) ∧ P text := by
      intro P
      constructor
      · intro all
        exact ⟨fun before start _ => all before (before_snoc start).1 (before_snoc start).2,
          all text (before_snoc List.prefix_rfl).1 (before_snoc List.prefix_rfl).2⟩
      · rintro ⟨all, last⟩ before start other
        obtain whole | start := List.prefix_concat_iff.mp start
        · exact absurd whole other
        · by_cases same : before = text
          · rwa [same]
          · exact all before start same
    rw [split, split, ih known]
    refine and_congr_right fun first => not_congr ?_
    rw [run_longest filled known first, longest_eq_length]

theorem recognizes (filled : Filled signed pattern table pattern.length) :
    Recognizes signed (Readable signed) pattern table := by
  constructor
  · exact fun text readable first =>
      run_longest filled readable ((first_iff filled readable).mp first)
  · intro text readable
    rw [first_iff filled readable]
    refine and_congr_left fun first => ?_
    rw [run_longest filled readable first, longest_eq_length]

theorem kmpAutomato_filled (past : Table) (some : pattern ≠ [])
    (fits : pattern.length * charsInByte < 2 ^ 31)
    (readable : ∀ b ∈ pattern, Readable signed b) :
    ∃ table, kmpAutomato signed past pattern = .ok table ∧
      Filled signed pattern table pattern.length := by
  obtain ⟨first, rest, rfl⟩ := List.exists_cons_of_ne_nil some
  have small := charIndex_lt (readable first List.mem_cons_self)
  have one : Filled signed (first :: rest)
      (Function.update (fun _ => 0) (charIndex signed first) 1) 1 :=
    @filled_one signed (first :: rest) (Nat.succ_pos _)
  have left : (first :: rest).drop 1 = rest := rfl
  obtain ⟨all, ran, right⟩ := fillRows_filled one Nat.one_pos left (Nat.succ_pos _) readable
  rw [restart_one] at ran
  refine ⟨fun place => if place < (first :: rest).length * charsInByte then all place
    else past place, ?_, fun i below b known => ?_⟩
  · have inside : charIndex signed first < (first :: rest).length * charsInByte :=
      small.trans_le (Nat.le_mul_of_pos_left _ (Nat.succ_pos _))
    rw [kmpAutomato, if_neg (not_or.mpr ⟨Nat.not_le.mpr fits, Nat.not_le.mpr inside⟩), ran]
  · have room : (i + 1) * charsInByte ≤ (first :: rest).length * charsInByte :=
      Nat.mul_le_mul_right _ below
    have low := charIndex_lt known
    rw [Nat.succ_mul] at room
    simp only
    rw [if_pos (by omega), right i below b known]

theorem kmpAutomato_overflow (long : 2 ^ 31 ≤ pattern.length * charsInByte) :
    kmpAutomato signed past pattern = .error .fault := by
  cases pattern with
  | nil => rfl
  | cons first rest => exact if_pos (.inl long)

/-- Behind the table the kernels read what the memory holds. -/
theorem kmpAutomato_past (built : kmpAutomato signed past pattern = .ok table) {place : Nat}
    (behind : pattern.length * charsInByte ≤ place) : table place = past place := by
  cases pattern with
  | nil => cases built
  | cons first rest =>
    rw [kmpAutomato] at built
    split at built
    · cases built
    · split at built
      · cases built
      · cases built
        exact if_neg (Nat.not_lt.mpr behind)

/-- The beginnings of a pattern are read without an accepting state. -/
theorem Recognizes.run_take {alphabet : UInt8 → Prop}
    (recognized : Recognizes signed alphabet pattern table) (all : ∀ b, alphabet b) {k : Nat}
    (inside : k < pattern.length) : runFrom signed table 0 (pattern.take k) = k := by
  have running : ∀ n, ∀ before, before.length ≤ n → n < pattern.length →
      runFrom signed table 0 before ≠ pattern.length := by
    intro n
    induction n with
    | zero =>
      intro before size some accepted
      rw [List.eq_nil_of_length_eq_zero (Nat.le_zero.mp size)] at accepted
      rw [← accepted] at some
      exact absurd some (Nat.lt_irrefl 0)
    | succ n ih =>
      intro before size some accepted
      have earlier : ∀ other, other <+: before → other ≠ before →
          runFrom signed table 0 other ≠ pattern.length := fun other start differs => by
        have shorter := start.length_le
        have proper : other.length ≠ before.length := fun same =>
          differs (start.eq_of_length same)
        exact ih other (by omega) (by omega)
      have ends := ((recognized.accepts before fun b _ => all b).mp ⟨accepted, earlier⟩).1
      have room := ends.length_le
      omega
  have read := recognized.state (pattern.take k) (fun b _ => all b) fun before start _ => by
    have size := start.length_le
    rw [List.length_take] at size
    exact running k before (by omega) inside
  have upper := (@take_longest _ _ pattern (pattern.take k)).length_le
  rw [List.length_take, List.length_take] at upper
  have small := @longest_le _ _ pattern (pattern.take k)
  have lower := le_longest inside.le (List.suffix_refl (pattern.take k))
  rw [read]
  omega

/-- A byte without an entry in its row that is not the last one of a pattern. -/
theorem exists_unreadable (last : UInt8) : ∃ b : UInt8, 128 ≤ b.toNat ∧ b ≠ last := by
  by_cases same : last = 128
  · exact ⟨129, by decide, by rw [same]; decide⟩
  · exact ⟨128, by decide, Ne.symm same⟩

/-- Where `char` is unsigned, what lies behind the table may be an accepting state. -/
theorem unsigned_wrong (some : pattern ≠ []) : ¬ ∀ past, ∃ table,
    kmpAutomato false past pattern = .ok table ∧
      Recognizes false (fun _ => True) pattern table := by
  intro all
  have positive := List.length_pos_iff.mpr some
  obtain ⟨table, built, recognized⟩ := all fun _ => pattern.length
  obtain ⟨b, large, other⟩ := exists_unreadable (pattern.getLast some)
  have take : runFrom false table 0 (pattern.take (pattern.length - 1)) = pattern.length - 1 :=
    recognized.run_take (fun _ => trivial) (by omega)
  have place : pattern.length * charsInByte ≤
      (pattern.length - 1) * charsInByte + charIndex false b := by
    rw [charIndex_eq, if_neg Bool.false_ne_true, charsInByte]
    omega
  have accepted : runFrom false table 0 (pattern.take (pattern.length - 1) ++ [b]) =
      pattern.length := by
    rw [runFrom_snoc, take, advance, kmpAutomato_past built place]
  have size : (pattern.take (pattern.length - 1) ++ [b]).length = pattern.length := by
    rw [List.length_append, List.length_take, List.length_singleton]
    omega
  have earlier : ∀ before, before <+: pattern.take (pattern.length - 1) ++ [b] →
      before ≠ pattern.take (pattern.length - 1) ++ [b] →
        runFrom false table 0 before ≠ pattern.length := fun before start differs => by
    have shorter : before.length < pattern.length := by
      refine lt_of_le_of_ne (size ▸ start.length_le) fun same => differs ?_
      exact start.eq_of_length (same.trans size.symm)
    obtain whole | start := List.prefix_concat_iff.mp start
    · exact absurd whole differs
    · have same := List.prefix_iff_eq_take.mp start
      rw [List.take_take, min_eq_left (by omega)] at same
      rw [same, recognized.run_take (fun _ => trivial) shorter]
      exact shorter.ne
  have ends := ((recognized.accepts _ fun _ _ => trivial).mp ⟨accepted, earlier⟩).1
  have same := ends.eq_of_length size.symm
  refine other ?_
  have last := congrArg (fun text => text.getLast?) same
  simp only [List.getLast?_append, List.getLast?_singleton, Option.some_or,
    List.getLast?_eq_some_getLast some] at last
  exact (Option.some.inj last).symm

/-- A table recognizes its pattern in all texts if and only if its size has 31 bits and `char` is
signed. Where `char` is unsigned, the texts and patterns without characters from 128 on are left. -/
theorem kmpAutomato_recognizes_iff (signed : Bool) (pattern : List UInt8) (some : pattern ≠ []) :
    ((∀ past, ∃ table, kmpAutomato signed past pattern = .ok table ∧
        Recognizes signed (fun _ => True) pattern table) ↔
      pattern.length * charsInByte < 2 ^ 31 ∧ signed = true) ∧
    (pattern.length * charsInByte < 2 ^ 31 → (∀ b ∈ pattern, Readable signed b) →
      ∀ past, ∃ table, kmpAutomato signed past pattern = .ok table ∧
        Recognizes signed (Readable signed) pattern table) := by
  have right (fits : pattern.length * charsInByte < 2 ^ 31)
      (readable : ∀ b ∈ pattern, Readable signed b) (past : Table) : ∃ table,
        kmpAutomato signed past pattern = .ok table ∧
          Recognizes signed (Readable signed) pattern table := by
    obtain ⟨table, built, filled⟩ := kmpAutomato_filled past some fits readable
    exact ⟨table, built, recognizes filled⟩
  refine ⟨⟨fun all => ⟨?_, ?_⟩, ?_⟩, right⟩
  · by_contra long
    obtain ⟨table, built, -⟩ := all fun _ => 0
    rw [kmpAutomato_overflow (Nat.not_lt.mp long)] at built
    cases built
  · cases signed with
    | true => rfl
    | false => exact absurd all (unsigned_wrong some)
  · rintro ⟨fits, rfl⟩ past
    obtain ⟨table, built, recognized⟩ := right fits (fun _ _ => .inl rfl) past
    exact ⟨table, built, fun text _ => recognized.state text fun _ _ => .inl rfl,
      fun text _ => recognized.accepts text fun _ _ => .inl rfl⟩

theorem recognizes_abab :
    (∀ past, ∃ table, kmpAutomato true past [97, 98, 97, 98] = .ok table ∧
      Recognizes true (fun _ => True) [97, 98, 97, 98] table) ∧
    ∃ table, kmpAutomato false (fun _ => 0) [97, 98, 97, 98] = .ok table ∧
      Recognizes false (Readable false) [97, 98, 97, 98] table := by
  have fits : [97, 98, 97, 98].length * charsInByte < 2 ^ 31 := by decide
  have small : ∀ b ∈ ([97, 98, 97, 98] : List UInt8), b.toNat < 128 := by simp
  exact ⟨(kmpAutomato_recognizes_iff true [97, 98, 97, 98] (by decide)).1.mpr ⟨fits, rfl⟩,
    (kmpAutomato_recognizes_iff false [97, 98, 97, 98] (by decide)).2 fits
      (fun b member => .inr (small b member)) _⟩

/-- The size of the table of 8 MiB of characters is no 32-bit integer. -/
theorem no_table : ¬ ∀ pattern : List UInt8, pattern ≠ [] → ∀ past,
    ∃ table, kmpAutomato true past pattern = .ok table ∧
      Recognizes true (fun _ => True) pattern table := by
  intro all
  obtain ⟨table, built, -⟩ := all (List.replicate (2 ^ 23) 97)
    (List.ne_nil_of_length_pos (by rw [List.length_replicate]; decide)) fun _ => 0
  rw [kmpAutomato_overflow (by
    rw [List.length_replicate]
    decide)] at built
  cases built

end Runs

section Unsigned

variable {pattern rest : List UInt8} {table : Table} {j X rows : Nat} {b : UInt8}

/-- No entry goes further than to the state behind its own, and those that only characters of the
row before reach are empty. -/
def Low (table : Table) (rows : Nat) : Prop :=
  ∀ i < rows, ∀ c < charsInByte, table (i * charsInByte + c) ≤ i + 1 ∧
    (c < 128 → table (i * charsInByte + c) = 0)

theorem charIndex_unsigned (b : UInt8) : charIndex false b = b.toNat + 128 := by
  rw [charIndex_eq, if_neg Bool.false_ne_true]

theorem Low.turn (low : Low table j) (apart : X < j) (b : UInt8) :
    Low (Function.update (copyRow table j X) (j * charsInByte + charIndex false b) (j + 1))
      (j + 1) := by
  have large := charIndex_unsigned b
  intro i below c small
  obtain rfl | before := Nat.eq_or_lt_of_le (Nat.le_of_lt_succ below)
  · by_cases same : c = charIndex false b
    · subst same
      rw [Function.update_self]
      exact ⟨le_rfl, fun low => absurd low (by omega)⟩
    · obtain ⟨bound, empty⟩ := low X apart c small
      rw [Function.update_of_ne (by omega), copyRow_place apart, if_pos (by omega),
        Nat.add_sub_cancel_left]
      exact ⟨by omega, empty⟩
  · have room : (i + 1) * charsInByte ≤ j * charsInByte := Nat.mul_le_mul_right _ before
    rw [Nat.succ_mul] at room
    rw [Function.update_of_ne (by omega), copyRow_place apart, if_neg (by omega)]
    exact low i before c small

/-- From a row before the last one a character leads to no state behind the next one, and a
character of the row behind to the first one. -/
theorem Low.entry (low : Low table rows) (inside : j + 1 < rows) (b : UInt8) :
    table (j * charsInByte + charIndex false b) ≤ j + 1 ∧
      (128 ≤ b.toNat → table (j * charsInByte + charIndex false b) = 0) := by
  have small := b.toNat_lt
  have large := charIndex_unsigned b
  by_cases readable : b.toNat < 128
  · exact ⟨(low j (by omega) _ (by unfold charsInByte; omega)).1,
      fun behind => absurd readable (Nat.not_lt.mpr behind)⟩
  · have place : j * charsInByte + charIndex false b =
        (j + 1) * charsInByte + (b.toNat - 128) := by
      rw [Nat.succ_mul, large]
      unfold charsInByte
      omega
    have empty := (low (j + 1) inside (b.toNat - 128) (by unfold charsInByte; omega)).2 (by omega)
    rw [place, empty]
    exact ⟨Nat.zero_le _, fun _ => rfl⟩

theorem fillRows_low {size : Nat} {all : Table} (low : Low table j) (apart : X < j)
    (ran : fillRows false size rest j X table = .ok all) : Low all (j + rest.length) := by
  induction rest generalizing j X table with
  | nil =>
    cases ran
    exact low
  | cons b rest ih =>
    rw [fillRows] at ran
    split at ran
    · cases ran
    · have low' := low.turn apart b
      have next := (low'.entry (Nat.succ_lt_succ apart) b).1
      have all := ih low' (by omega) ran
      rwa [Nat.succ_add_eq_add_succ] at all

theorem kmpAutomato_low (built : kmpAutomato false (fun _ => 0) pattern = .ok table) :
    Low table pattern.length := by
  cases pattern with
  | nil => cases built
  | cons first rest =>
    have one : Low (Function.update (fun _ => 0) (charIndex false first) 1) 1 := by
      have large := charIndex_unsigned first
      intro i below c small
      obtain rfl : i = 0 := by omega
      rw [Nat.zero_mul, Nat.zero_add]
      by_cases same : c = charIndex false first
      · rw [same, Function.update_self]
        exact ⟨le_rfl, fun low => absurd low (by omega)⟩
      · rw [Function.update_of_ne same]
        exact ⟨Nat.zero_le _, fun _ => rfl⟩
    rw [kmpAutomato] at built
    split at built
    · cases built
    · split at built
      · cases built
      · rename_i all ran
        cases built
        have low := fillRows_low one Nat.one_pos ran
        rw [Nat.add_comm] at low
        intro i below c small
        have room : (i + 1) * charsInByte ≤ (first :: rest).length * charsInByte :=
          Nat.mul_le_mul_right _ below
        rw [Nat.succ_mul] at room
        simp only
        rw [if_pos (by omega)]
        exact low i below c small

/-- A step of the kernels where nothing lies behind the table. -/
theorem advance_low (built : kmpAutomato false (fun _ => 0) pattern = .ok table)
    (inside : j < pattern.length) (b : UInt8) : advance false table j b ≤ j + 1 ∧
      (128 ≤ b.toNat → advance false table j b = 0) := by
  have low := kmpAutomato_low built
  have large := charIndex_unsigned b
  by_cases last : j + 1 < pattern.length
  · exact low.entry last b
  · obtain whole : pattern.length = j + 1 := by omega
    by_cases readable : b.toNat < 128
    · exact ⟨(low j inside _ (by unfold charsInByte; omega)).1,
        fun behind => absurd readable (Nat.not_lt.mpr behind)⟩
    · have behind : pattern.length * charsInByte ≤ j * charsInByte + charIndex false b := by
        rw [whole, Nat.succ_mul]
        unfold charsInByte
        omega
      rw [advance, kmpAutomato_past built behind]
      exact ⟨Nat.zero_le _, fun _ => rfl⟩

end Unsigned

end KmpAutomaton
