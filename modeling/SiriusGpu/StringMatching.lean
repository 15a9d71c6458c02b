import Mathlib
import SiriusGpu.ColumnFormat
import SiriusGpu.KmpAutomaton

/-!
# String matching with one term

The characters of all strings lie one behind the other. Threads scan sub-chunks of them with the
automaton of the pattern, a pattern's length beyond the end of the sub-chunk, and follow in which
string they are.
-/

namespace StringMatching

open ColumnFormat KmpAutomaton PatternPrefixes
open GpuMemory (Exception)

section Model

def chunkSize : Nat := 8192

def threadsPerBlock : Nat := 512

def subChunkSize : Nat := (chunkSize + threadsPerBlock - 1) / threadsPerBlock

/-- The loop of `determine_start_kernel`; its bounds are unsigned. -/
def determineStart (indices : List Nat) (chunkStart : Nat) : (fuel start stop : Nat) → Nat
  | 0, _, _ => 0
  | fuel + 1, start, stop =>
    if start ≤ stop then
      let term := (start + stop) / 2
      if indices.getD term 0 ≤ chunkStart ∧ chunkStart < indices.getD (term + 1) 0 then term
      else if chunkStart < indices.getD term 0 then
        determineStart indices chunkStart fuel start (if term = 0 then 2 ^ 64 - 1 else term - 1)
      else determineStart indices chunkStart fuel (term + 1) stop
    else 0

/-- The loop to the string in which a sub-chunk starts. -/
def findTerm (indices : List Nat) (numStrings subChunkStart : Nat) : (fuel term : Nat) → Nat
  | 0, term => term
  | fuel + 1, term =>
    if term < numStrings ∧ (subChunkStart < indices.getD term 0 ∨
        subChunkStart ≥ indices.getD (term + 1) 0) then
      findTerm indices numStrings subChunkStart fuel (term + 1)
    else term

/-- What a thread keeps, and its matches: the string and the last character. -/
structure Scan where
  term : Nat
  termEnd : Nat
  j : Nat
  hits : List (Nat × Nat)

/-- At the end of a string the next one begins. -/
def enter (indices : List Nat) (s : Scan) (i : Nat) : Scan :=
  if i ≥ s.termEnd then
    { s with term := s.term + 1, termEnd := indices.getD (s.term + 1 + 1) 0, j := 0 }
  else s

def turn (signed : Bool) (data : List UInt8) (indices : List Nat) (table : Table)
    (patternSize : Nat) (s : Scan) (i : Nat) : Scan :=
  let s := enter indices s i
  let j := advance signed table s.j (data.getD i 0)
  if j ≥ patternSize then { s with j := 0, hits := (s.term, i) :: s.hits } else { s with j := j }

def currChunkStart (lastChar chunkId : Nat) : Nat := min (chunkId * chunkSize) lastChar

/-- The first and the last character of a thread. -/
def subChunk (lastChar patternSize chunkId thread : Nat) : Nat × Nat :=
  let chunkStart := currChunkStart lastChar chunkId
  let chunkEnd := min (chunkStart + chunkSize + patternSize) lastChar
  let subChunkStart := min (chunkStart + thread * subChunkSize) chunkEnd
  (subChunkStart, min (subChunkStart + subChunkSize + patternSize) chunkEnd)

/-- What the kernels for one term and for several have in common: the matches of a thread. -/
def scanSubChunk (signed : Bool) (data : List UInt8) (indices : List Nat) (table : Table)
    (patternSize numStrings chunkId thread : Nat) : List (Nat × Nat) :=
  let lastChar := data.length - 1
  let (subChunkStart, subChunkEnd) := subChunk lastChar patternSize chunkId thread
  let workerStart := determineStart indices (currChunkStart lastChar chunkId) (numStrings + 1) 0
    numStrings
  let term := findTerm indices numStrings subChunkStart numStrings workerStart
  ((List.range' subChunkStart (subChunkEnd + 1 - subChunkStart)).foldl
    (turn signed data indices table patternSize) ⟨term, indices.getD (term + 1) 0, 0, []⟩).hits

/-- `single_term_kmp_kernel` for a thread: the strings for which it sets the result. -/
def singleTermKmpKernel (signed : Bool) (data : List UInt8) (indices : List Nat) (table : Table)
    (patternSize numStrings chunkId thread : Nat) : List Nat :=
  (scanSubChunk signed data indices table patternSize numStrings chunkId thread).map Prod.fst

/-- `DoStringMatching` on the column of some strings, with what lies behind the table. -/
def doStringMatching (signed : Bool) (past : Table) (strings : List (List UInt8))
    (matchString : List UInt8) : Except Exception (List Bool) := do
  let table ← kmpAutomato signed past matchString
  let data := strings.flatten
  let workersNeeded := (data.length + chunkSize - 1) / chunkSize
  .ok ((List.range strings.length).map fun i =>
    (List.range workersNeeded).any fun chunkId => (List.range threadsPerBlock).any fun thread =>
      (singleTermKmpKernel signed data (offsets 0 strings) table matchString.length strings.length
        chunkId thread).contains i)

end Model

section Meaning

variable (signed : Bool) (strings : List (List UInt8)) (pattern : List UInt8)

/-- The result of a string says whether the pattern occurs in it, whatever the memory held. -/
def Exact : Prop :=
  ∀ past, ∃ results, doStringMatching signed past strings pattern = .ok results ∧
    results.length = strings.length ∧
      ∀ i < strings.length, (results.getD i false = true ↔ pattern <:+: strings.getD i [])

/-- The automaton can read all characters of the column. -/
def Legible : Prop := ∀ s ∈ strings, ∀ b ∈ s, Readable signed b

/-- The pattern occurs in a string, at a place among all characters. -/
def Occurs (i x : Nat) : Prop :=
  place strings i ≤ x ∧ x + pattern.length ≤ place strings (i + 1) ∧
    slice strings.flatten x (x + pattern.length) = pattern

/-- No empty string has characters before it and after it. -/
def NoneBetween : Prop :=
  ∀ i < strings.length, strings.getD i [] = [] →
    place strings i = 0 ∨ place strings i = strings.flatten.length

end Meaning

section Places

variable {strings : List (List UInt8)} {i j k : Nat}

/-- A character lies in the string `i`. -/
def Within (strings : List (List UInt8)) (i k : Nat) : Prop :=
  place strings i ≤ k ∧ k < place strings (i + 1)

theorem Within.lt (within : Within strings i k) : i < strings.length := by
  by_contra after
  have same : place strings (i + 1) ≤ place strings i := by
    rw [place, place, List.take_of_length_le (by omega), List.take_of_length_le (by omega)]
  exact absurd (within.2.trans_le same) (Nat.not_lt.mpr within.1)

theorem Within.unique (first : Within strings i k) (second : Within strings j k) : i = j := by
  by_contra differ
  obtain below | below := Nat.lt_or_gt_of_ne differ
  · have order := @place_le _ strings (i + 1) j below
    exact absurd (first.2.trans_le order) (Nat.not_lt.mpr second.1)
  · have order := @place_le _ strings (j + 1) i below
    exact absurd (second.2.trans_le order) (Nat.not_lt.mpr first.1)

theorem exists_within (inside : k < strings.flatten.length) : ∃ i, Within strings i k := by
  have later : ∃ i, k < place strings i := ⟨strings.length, by rwa [place_all]⟩
  have found := Nat.find_spec later
  have positive : Nat.find later ≠ 0 := fun zero => by
    rw [zero, place_zero] at found
    exact absurd found (Nat.not_lt_zero k)
  obtain ⟨i, last⟩ := Nat.exists_eq_succ_of_ne_zero positive
  refine ⟨i, Nat.not_lt.mp (Nat.find_min later (by omega)), ?_⟩
  rwa [last] at found

theorem infix_iff {pattern : List UInt8} (inside : i < strings.length) :
    pattern <:+: strings.getD i [] ↔ ∃ x, Occurs strings pattern i x := by
  have whole := slice_string inside
  constructor
  · rintro ⟨before, after, parts⟩
    have length := congrArg List.length parts
    rw [List.length_append, List.length_append] at length
    have next := place_succ inside
    refine ⟨place strings i + before.length, Nat.le_add_right _ _, by omega, ?_⟩
    rw [slice_slice (Nat.le_add_right (place strings i) before.length)
      (show place strings i + before.length + pattern.length ≤ place strings (i + 1) by omega),
      whole, ← parts, Nat.add_sub_cancel_left, List.append_assoc, Nat.add_sub_cancel_left,
      List.drop_left, List.take_left]
  · rintro ⟨x, low, high, same⟩
    rw [← same, ← whole]
    exact infix_slice low high

end Places

section Starts

variable {strings : List (List UInt8)} {term chunkStart fuel start stop : Nat}

/-- The search ends at the string of the character. -/
theorem determineStart_within (within : Within strings term chunkStart) (low : start ≤ term)
    (high : term ≤ stop) (bound : stop ≤ strings.length) (enough : stop < fuel + start) :
    determineStart (offsets 0 strings) chunkStart fuel start stop = term := by
  induction fuel generalizing start stop with
  | zero => omega
  | succ fuel ih =>
    have inside := within.lt
    have order : start ≤ stop := low.trans high
    have last : (start + stop) / 2 < strings.length := by omega
    have next : (offsets 0 strings).getD ((start + stop) / 2 + 1) 0 =
        place strings ((start + stop) / 2 + 1) := getD_offsets last
    rw [determineStart, if_pos order]
    simp only
    rw [getD_offsets last.le, next]
    by_cases here : place strings ((start + stop) / 2) ≤ chunkStart ∧
        chunkStart < place strings ((start + stop) / 2 + 1)
    · rw [if_pos here]
      exact Within.unique here within
    · rw [if_neg here]
      by_cases below : chunkStart < place strings ((start + stop) / 2)
      · have before : term < (start + stop) / 2 := by
          by_contra after
          have later := @place_le _ strings _ _ (Nat.not_lt.mp after)
          exact absurd (below.trans_le later) (Nat.not_lt.mpr within.1)
        rw [if_pos below, if_neg (by omega)]
        exact ih low (by omega) (by omega) (by omega)
      · have after : (start + stop) / 2 < term := by
          by_contra before
          exact here ⟨Nat.not_lt.mp below, within.2.trans_le (place_le (by omega))⟩
        rw [if_neg below]
        exact ih (by omega) high bound (by omega)

theorem findTerm_within (within : Within strings term chunkStart) (low : start ≤ term)
    (enough : term ≤ fuel + start) :
    findTerm (offsets 0 strings) strings.length chunkStart fuel start = term := by
  induction fuel generalizing start with
  | zero =>
    rw [findTerm]
    omega
  | succ fuel ih =>
    have inside := within.lt
    rw [findTerm, getD_offsets (by omega), getD_offsets (by omega)]
    by_cases same : start = term
    · subst same
      rw [if_neg fun other => other.2.elim (Nat.not_lt.mpr within.1) (Nat.not_le.mpr within.2)]
    · have before : place strings (start + 1) ≤ chunkStart :=
        (place_le (by omega)).trans within.1
      rw [if_pos ⟨by omega, .inr before⟩]
      exact ih (by omega) (by omega)

end Starts

section Scanning

variable {signed : Bool} {strings : List (List UInt8)} {pattern : List UInt8} {table : Table}
  {a p k : Nat} {s : Scan}

theorem Legible.char (legible : Legible signed strings) (inside : p < strings.flatten.length) :
    Readable signed strings.flatten[p] := by
  obtain ⟨s, member, char⟩ := List.mem_flatten.mp (List.getElem_mem inside)
  exact legible s member _ char

/-- What a thread that started at `a` knows before the character `p`: its state is that of the
characters from where it met its string, or from the end of its last match there. It has met all
occurrences that no other one overlaps from before. -/
structure Tracks (strings : List (List UInt8)) (pattern : List UInt8) (a p : Nat) (s : Scan) :
    Prop where
  ends : s.termEnd = place strings (s.term + 1)
  running : s.j < pattern.length
  state : ∃ f, a ≤ f ∧ place strings s.term ≤ f ∧ f ≤ p ∧
    s.j = longest pattern (slice strings.flatten f p) ∧
      (f ≤ a ∨ f ≤ place strings s.term ∨
        ∃ y, y + pattern.length = f ∧ Occurs strings pattern s.term y)
  sound : ∀ hit ∈ s.hits, ∃ x, x + pattern.length = hit.2 + 1 ∧ Occurs strings pattern hit.1 x
  complete : ∀ x i, Occurs strings pattern i x → a ≤ x → x + pattern.length ≤ p →
    (∀ y < x, x < y + pattern.length → ¬ Occurs strings pattern i y) →
      (i, x + pattern.length - 1) ∈ s.hits

/-- The string of the character before `p`, or of the first one. -/
structure Behind (strings : List (List UInt8)) (a p : Nat) (s : Scan) : Prop where
  inside : s.term < strings.length
  some : place strings s.term < place strings (s.term + 1)
  low : place strings s.term ≤ p
  high : p ≤ place strings (s.term + 1)
  started : a < p → place strings s.term < p

theorem Tracks.start {i : Nat} (some : pattern ≠ []) (within : Within strings i a) :
    Tracks strings pattern a a ⟨i, place strings (i + 1), 0, []⟩ ∧
      Behind strings a a ⟨i, place strings (i + 1), 0, []⟩ := by
  have positive := List.length_pos_iff.mpr some
  refine ⟨⟨rfl, positive, ⟨a, le_rfl, within.1, le_rfl, ?_, .inl le_rfl⟩, by simp, ?_⟩,
    within.lt, within.1.trans_lt within.2, within.1, within.2.le, fun less => absurd less
      (Nat.lt_irrefl a)⟩
  · rw [slice_self, longest_nil]
  · intro x i _ low high _
    omega

/-- Where no empty string begins, a thread is in the string of its character. -/
theorem enter_within (some : pattern ≠ []) (tracks : Tracks strings pattern a p s)
    (behind : Behind strings a p s) (inside : p < strings.flatten.length)
    (plain : 0 < p → ∀ i < strings.length, place strings i = p → strings.getD i [] ≠ []) :
    Within strings (enter (offsets 0 strings) s p).term p ∧
      Tracks strings pattern a p (enter (offsets 0 strings) s p) := by
  rw [enter]
  by_cases ended : p ≥ s.termEnd
  · have last : place strings (s.term + 1) = p := by
      rw [tracks.ends] at ended
      exact le_antisymm ended behind.high
    have more : s.term + 1 < strings.length := by
      by_contra none
      have all : s.term + 1 = strings.length := le_antisymm behind.inside (Nat.not_lt.mp none)
      rw [all, place_all] at last
      omega
    have positive : 0 < p := by
      rw [← last]
      exact (Nat.zero_le _).trans_lt behind.some
    have filled := List.length_pos_iff.mpr (plain positive _ more last)
    have next := place_succ more
    obtain ⟨f, low, -, high, -, -⟩ := tracks.state
    rw [if_pos ended]
    refine ⟨⟨last.le, by simp only; omega⟩, ?_, List.length_pos_iff.mpr some, ?_, tracks.sound,
      tracks.complete⟩
    · exact getD_offsets more
    · refine ⟨p, low.trans high, last.le, le_rfl, ?_, .inr (.inl last.ge)⟩
      rw [slice_self, longest_nil]
  · rw [if_neg ended]
    rw [tracks.ends] at ended
    exact ⟨⟨behind.low, Nat.not_le.mp ended⟩, tracks⟩

/-- The automaton's step on a character of the string the thread is in. -/
theorem read_tracks (filled : Filled signed pattern table pattern.length)
    (legible : Legible signed strings) (tracks : Tracks strings pattern a p s)
    (within : Within strings s.term p) (inside : p < strings.flatten.length) :
    let j := advance signed table s.j (strings.flatten.getD p 0)
    let after : Scan := if j ≥ pattern.length then { s with j := 0, hits := (s.term, p) :: s.hits }
      else { s with j := j }
    Tracks strings pattern a (p + 1) after ∧ Behind strings a (p + 1) after := by
  intro j after
  obtain ⟨f, low, started, high, state, met⟩ := tracks.state
  have read : j = longest pattern (slice strings.flatten f (p + 1)) := by
    have step := filled s.j tracks.running _ (legible.char inside)
    rw [slice_snoc high inside, longest_snoc, ← state]
    change advance signed table s.j (strings.flatten.getD p 0) = _
    rw [List.getD_eq_getElem _ _ inside]
    exact step
  have positive : 0 < pattern.length := (Nat.zero_le _).trans_lt tracks.running
  -- an occurrence that ends with this character lies in the string of the character
  have same : ∀ x i, Occurs strings pattern i x → x + pattern.length = p + 1 → i = s.term :=
    fun x i occurs last => by
      obtain ⟨low, high, -⟩ := occurs
      exact Within.unique ⟨by omega, by omega⟩ within
  have behind : ∀ after : Scan, after.term = s.term → Behind strings a (p + 1) after := by
    intro after term
    constructor
    · rw [term]
      exact within.lt
    · rw [term]
      exact within.1.trans_lt within.2
    · rw [term]
      exact within.1.trans (Nat.le_succ p)
    · rw [term]
      exact within.2
    · rw [term]
      exact fun _ => Nat.lt_succ_of_le within.1
  by_cases accepts : j ≥ pattern.length
  · have last : longest pattern (slice strings.flatten f (p + 1)) = pattern.length :=
      le_antisymm longest_le (read ▸ accepts)
    obtain ⟨room, equal⟩ := slice_of_suffix (by omega) inside (longest_eq_length.mp last)
    have occurs : Occurs strings pattern s.term (p + 1 - pattern.length) := by
      refine ⟨by omega, ?_, ?_⟩
      · have next := within.2
        omega
      · rwa [Nat.sub_add_cancel (by omega)]
    have done : after = { s with j := 0, hits := (s.term, p) :: s.hits } := if_pos accepts
    rw [done]
    refine ⟨⟨tracks.ends, positive, ?_, ?_, ?_⟩, behind _ rfl⟩
    · refine ⟨p + 1, by omega, by simp only; omega, le_rfl, ?_, .inr (.inr
        ⟨p + 1 - pattern.length, Nat.sub_add_cancel (by omega), occurs⟩)⟩
      rw [slice_self, longest_nil]
    · exact List.forall_mem_cons.mpr ⟨⟨_, Nat.sub_add_cancel (by omega), occurs⟩, tracks.sound⟩
    · intro x i occurs' from_a until_p alone
      by_cases earlier : x + pattern.length ≤ p
      · exact List.mem_cons_of_mem _ (tracks.complete x i occurs' from_a earlier alone)
      · have ended : x + pattern.length = p + 1 := by omega
        rw [same x i occurs' ended, ended]
        exact List.mem_cons_self
  · have done : after = { s with j := j } := if_neg accepts
    rw [done]
    refine ⟨⟨tracks.ends, Nat.not_le.mp accepts, ?_, tracks.sound, ?_⟩, behind _ rfl⟩
    · exact ⟨f, low, started, by omega, read, met⟩
    · intro x i occurs from_a until_p alone
      by_cases earlier : x + pattern.length ≤ p
      · exact tracks.complete x i occurs from_a earlier alone
      · have ended : x + pattern.length = p + 1 := by omega
        obtain rfl := same x i occurs ended
        obtain ⟨from_i, -, equal⟩ := occurs
        -- the state is that of characters from before the occurrence on
        have before : f ≤ x := by
          obtain early | early | ⟨y, stop, occurs⟩ := met
          · exact early.trans from_a
          · exact early.trans from_i
          · by_contra inner
            exact alone y (by omega) (by omega) occurs
        rw [ended] at equal
        have suffix : slice strings.flatten x (p + 1) <:+ slice strings.flatten f (p + 1) :=
          slice_suffix before
        rw [equal, ← longest_eq_length, ← read] at suffix
        exact absurd suffix.ge accepts

/-- The run over the characters from `a` on. -/
theorem scan_tracks (filled : Filled signed pattern table pattern.length)
    (legible : Legible signed strings) (some : pattern ≠ []) (tracks : Tracks strings pattern a a s)
    (behind : Behind strings a a s)
    (inside : a + k ≤ strings.flatten.length)
    (plain : ∀ p, a ≤ p → p < a + k → 0 < p →
      ∀ i < strings.length, place strings i = p → strings.getD i [] ≠ []) :
    Tracks strings pattern a (a + k) ((List.range' a k).foldl
        (turn signed strings.flatten (offsets 0 strings) table pattern.length) s) ∧
      Behind strings a (a + k) ((List.range' a k).foldl
        (turn signed strings.flatten (offsets 0 strings) table pattern.length) s) := by
  induction k with
  | zero => exact ⟨tracks, behind⟩
  | succ k ih =>
    have below : a + k < strings.flatten.length := by omega
    obtain ⟨tracks', behind'⟩ := ih below.le fun p low high => plain p low (by omega)
    obtain ⟨within, entered⟩ := enter_within some tracks' behind' below
      (plain (a + k) (Nat.le_add_right a k) (by omega))
    rw [List.range'_1_concat, List.foldl_append]
    exact read_tracks filled legible entered within below

end Scanning

section Kernel

variable {signed : Bool} {strings : List (List UInt8)} {pattern : List UInt8}
  {table past : Table} {lastChar patternSize chunkId thread x first last : Nat}

theorem subChunk_bounds (ends : subChunk lastChar patternSize chunkId thread = (first, last)) :
    currChunkStart lastChar chunkId ≤ first ∧ first ≤ last ∧ last ≤ lastChar := by
  simp only [subChunk, Prod.mk.injEq] at ends
  obtain ⟨rfl, rfl⟩ := ends
  simp only [currChunkStart]
  omega

/-- The thread of the sub-chunk a run of characters begins in reads it to its end, and the
character behind it. -/
theorem subChunk_covers
    (ends : subChunk lastChar patternSize (x / chunkSize) (x % chunkSize / subChunkSize) =
      (first, last)) (inside : x ≤ lastChar) :
    first ≤ x ∧ min (x + patternSize) lastChar ≤ last := by
  have size : subChunkSize = 16 := rfl
  simp only [subChunk, currChunkStart, size, chunkSize, Prod.mk.injEq] at ends
  obtain ⟨rfl, rfl⟩ := ends
  omega

theorem kernel_run (chars : 0 < strings.flatten.length)
    (ends : subChunk (strings.flatten.length - 1) pattern.length chunkId thread = (first, last)) :
    ∃ i, Within strings i first ∧
      scanSubChunk signed strings.flatten (offsets 0 strings) table pattern.length strings.length
          chunkId thread =
        ((List.range' first (last + 1 - first)).foldl
          (turn signed strings.flatten (offsets 0 strings) table pattern.length)
          ⟨i, place strings (i + 1), 0, []⟩).hits := by
  obtain ⟨low, order, high⟩ := subChunk_bounds ends
  obtain ⟨worker, from_worker⟩ := @exists_within strings
    (currChunkStart (strings.flatten.length - 1) chunkId) (by omega)
  obtain ⟨i, within⟩ := @exists_within strings first (by omega)
  have before : worker ≤ i := by
    by_contra after
    have later := @place_le _ strings (i + 1) worker (Nat.not_le.mp after)
    exact absurd (within.2.trans_le (later.trans from_worker.1)) (Nat.not_lt.mpr low)
  have inside := within.lt
  refine ⟨i, within, ?_⟩
  rw [scanSubChunk]
  simp only [ends]
  rw [determineStart_within from_worker (Nat.zero_le _) from_worker.lt.le le_rfl (by omega),
    findTerm_within within before (by omega), getD_offsets inside]

/-- Without empty strings between others, a thread tracks its string to the end. -/
theorem kernel_tracks (filled : Filled signed pattern table pattern.length)
    (legible : Legible signed strings) (some : pattern ≠ []) (none : NoneBetween strings)
    (chars : 0 < strings.flatten.length)
    (ends : subChunk (strings.flatten.length - 1) pattern.length chunkId thread = (first, last)) :
    ∃ s, scanSubChunk signed strings.flatten (offsets 0 strings) table pattern.length
        strings.length chunkId thread = s.hits ∧ Tracks strings pattern first (last + 1) s := by
  obtain ⟨low, order, high⟩ := subChunk_bounds ends
  obtain ⟨i, within, ran⟩ := kernel_run chars ends
  obtain ⟨tracks, behind⟩ := Tracks.start some within
  refine ⟨_, ran, ?_⟩
  have stop : first + (last + 1 - first) = last + 1 := by omega
  have all := (@scan_tracks signed strings pattern table first (last + 1 - first) _ filled legible
    some tracks behind (by omega) fun p low high positive i inside here empty => by
      obtain start | finish := none i inside empty <;> omega).1
  rwa [stop] at all

theorem results_getD {results : List Bool} (built : kmpAutomato signed past pattern = .ok table)
    (ran : doStringMatching signed past strings pattern = .ok results) :
    results.length = strings.length ∧ ∀ i < strings.length, (results.getD i false = true ↔
      ∃ chunkId < (strings.flatten.length + chunkSize - 1) / chunkSize,
        ∃ thread < threadsPerBlock,
          i ∈ singleTermKmpKernel signed strings.flatten (offsets 0 strings)
          table pattern.length strings.length chunkId thread) := by
  rw [doStringMatching, built] at ran
  cases ran
  refine ⟨by simp, fun i inside => ?_⟩
  rw [List.getD_eq_getElem _ _ (by simpa using inside)]
  simp

theorem scheduled (inside : x < strings.flatten.length) :
    x / chunkSize < (strings.flatten.length + chunkSize - 1) / chunkSize ∧
      x % chunkSize / subChunkSize < threadsPerBlock := by
  have size : subChunkSize = 16 := rfl
  rw [size]
  unfold chunkSize threadsPerBlock
  omega

/-- Without empty strings between others the matches of all threads are occurrences, -/
theorem scan_sound (filled : Filled signed pattern table pattern.length)
    (legible : Legible signed strings) (some : pattern ≠ []) (none : NoneBetween strings)
    (launched : chunkId < (strings.flatten.length + chunkSize - 1) / chunkSize) {hit : Nat × Nat}
    (met : hit ∈ scanSubChunk signed strings.flatten (offsets 0 strings) table pattern.length
      strings.length chunkId thread) :
    ∃ x, x + pattern.length = hit.2 + 1 ∧ Occurs strings pattern hit.1 x := by
  have chars : 0 < strings.flatten.length := by
    unfold chunkSize at launched
    omega
  obtain ⟨s, hits, tracks⟩ := kernel_tracks filled legible some none chars (Prod.eta _).symm
  rw [hits] at met
  exact tracks.sound hit met

/-- and an occurrence that no other one overlaps from before is a match of some thread. -/
theorem scan_complete (filled : Filled signed pattern table pattern.length)
    (legible : Legible signed strings) (some : pattern ≠ []) (none : NoneBetween strings) {i : Nat}
    (occurs : Occurs strings pattern i x)
    (alone : ∀ y < x, x < y + pattern.length → ¬ Occurs strings pattern i y) :
    ∃ chunkId < (strings.flatten.length + chunkSize - 1) / chunkSize,
      ∃ thread < threadsPerBlock, (i, x + pattern.length - 1) ∈ scanSubChunk signed strings.flatten
        (offsets 0 strings) table pattern.length strings.length chunkId thread := by
  have positive := List.length_pos_iff.mpr some
  have below := @place_le_all _ strings (i + 1)
  have high := occurs.2.1
  obtain ⟨s, hits, tracks⟩ := @kernel_tracks signed strings pattern table (x / chunkSize)
    (x % chunkSize / subChunkSize) _ _ filled legible some none (by omega) (Prod.eta _).symm
  obtain ⟨start, stop⟩ := subChunk_covers (Prod.eta _).symm
    (show x ≤ strings.flatten.length - 1 by omega)
  obtain ⟨chunk, thread⟩ := @scheduled strings x (show x < strings.flatten.length by omega)
  refine ⟨x / chunkSize, chunk, x % chunkSize / subChunkSize, thread, ?_⟩
  rw [hits]
  exact tracks.complete x i occurs start (by omega) alone

/-- A string in which the pattern occurs has a first occurrence. -/
theorem first_occurrence {i : Nat} (occurs : ∃ x, Occurs strings pattern i x) :
    ∃ x, Occurs strings pattern i x ∧ ∀ y, Occurs strings pattern i y → x ≤ y := by
  classical
  exact ⟨Nat.find occurs, Nat.find_spec occurs, fun y => Nat.find_min' occurs⟩

/-- Without empty strings between others the results are exact. -/
theorem exact_of_none (some : pattern ≠ []) (fits : pattern.length * charsInByte < 2 ^ 31)
    (readable : ∀ b ∈ pattern, Readable signed b) (legible : Legible signed strings)
    (none : NoneBetween strings) : Exact signed strings pattern := by
  intro past
  obtain ⟨table, built, filled⟩ := kmpAutomato_filled past some fits readable
  obtain ⟨results, ran⟩ : ∃ results, doStringMatching signed past strings pattern =
      .ok results := by
    rw [doStringMatching, built]
    exact ⟨_, rfl⟩
  obtain ⟨size, results_iff⟩ := results_getD built ran
  refine ⟨results, ran, size, fun i inside => (results_iff i inside).trans ?_⟩
  rw [infix_iff inside]
  constructor
  · rintro ⟨chunkId, launched, thread, -, hit⟩
    obtain ⟨⟨_, e⟩, met, rfl⟩ := List.mem_map.mp hit
    obtain ⟨x, -, occurs⟩ := scan_sound filled legible some none launched met
    exact ⟨x, occurs⟩
  · intro occurs
    obtain ⟨x, occurs, least⟩ := first_occurrence occurs
    obtain ⟨chunkId, launched, thread, small, met⟩ := scan_complete filled legible some none
      occurs fun y before _ occurs' => absurd (least y occurs') (Nat.not_le.mpr before)
    exact ⟨chunkId, launched, thread, small, List.mem_map.mpr ⟨_, met, rfl⟩⟩

end Kernel

section Between

variable {signed : Bool} {strings : List (List UInt8)} {pattern : List UInt8} {table : Table}
  {patternSize a p : Nat} {s : Scan}

theorem turn_hits {hit : Nat × Nat} (known : hit ∈ s.hits) :
    hit ∈ (turn signed strings.flatten (offsets 0 strings) table patternSize s p).hits := by
  have entered : hit ∈ (enter (offsets 0 strings) s p).hits := by
    rw [enter]
    split <;> exact known
  rw [turn]
  split
  · exact List.mem_cons_of_mem _ entered
  · exact entered

theorem scan_hits {hit : Nat × Nat} (places : List Nat) (known : hit ∈ s.hits) :
    hit ∈ (places.foldl (turn signed strings.flatten (offsets 0 strings) table patternSize)
      s).hits := by
  induction places generalizing s with
  | nil => exact known
  | cons p places ih => exact ih (turn_hits known)

/-- A thread that comes to an empty string reads the next character as one of it. -/
theorem turn_empty {b : UInt8} (filled : Filled signed [b] table 1)
    (readable : Readable signed b) (tracks : Tracks strings [b] a p s)
    (behind : Behind strings a p s) (later : a < p)
    {i : Nat} (inside : i < strings.length) (here : place strings i = p)
    (empty : strings.getD i [] = []) (read : strings.flatten.getD p 0 = b) :
    ∃ i < strings.length, strings.getD i [] = [] ∧
      (i, p) ∈ (turn signed strings.flatten (offsets 0 strings) table 1 s p).hits := by
  have before := behind.started later
  have order : s.term < i := by
    by_contra after
    have low := @place_le _ strings i s.term (Nat.not_lt.mp after)
    omega
  have ended : place strings (s.term + 1) = p :=
    le_antisymm ((place_le order).trans here.le) behind.high
  have after : place strings (i + 1) = p := by
    rw [place_succ inside, empty, here, List.length_nil, Nat.add_zero]
  have next_inside : s.term + 1 < strings.length := Nat.lt_of_le_of_lt order inside
  have next_empty : strings.getD (s.term + 1) [] = [] := by
    have size := place_succ next_inside
    have bound := @place_le _ strings (s.term + 1 + 1) (i + 1) (by omega)
    exact List.eq_nil_of_length_eq_zero (by omega)
  refine ⟨s.term + 1, next_inside, next_empty, ?_⟩
  have accepts : advance signed table 0 b ≥ 1 := by
    have step := filled 0 Nat.one_pos b readable
    have first := @next_match _ _ [b] 0 Nat.one_pos
    rw [advance, step]
    exact first.ge
  have entered : enter (offsets 0 strings) s p =
      ⟨s.term + 1, (offsets 0 strings).getD (s.term + 1 + 1) 0, 0, s.hits⟩ :=
    if_pos (by rw [tracks.ends, ended])
  rw [turn, entered, read, if_pos accepts]
  exact List.mem_cons_self

/-- The thread that reads the character before the first empty string between others sets the
result of an empty string for the character behind it. -/
theorem kernel_empty {b : UInt8} {i chunkId thread first last : Nat}
    (filled : Filled signed [b] table 1) (legible : Legible signed strings)
    (inside : i < strings.length) (here : place strings i = p)
    (empty : strings.getD i [] = []) (read : strings.flatten.getD p 0 = b)
    (below : p < strings.flatten.length)
    (earlier : ∀ q < p, 0 < q → ∀ i < strings.length, place strings i = q →
      strings.getD i [] ≠ [])
    (ends : subChunk (strings.flatten.length - 1) 1 chunkId thread = (first, last))
    (later : first < p) (stop : p ≤ last) :
    ∃ i < strings.length, strings.getD i [] = [] ∧
      i ∈ singleTermKmpKernel signed strings.flatten (offsets 0 strings) table 1 strings.length
        chunkId
        thread := by
  have some : [b] ≠ [] := List.cons_ne_nil b []
  have readable : Readable signed b := by
    rw [List.getD_eq_getElem _ _ below] at read
    exact read ▸ legible.char below
  obtain ⟨term, within, ran⟩ := @kernel_run signed strings [b] table chunkId thread first last
    (by omega) ends
  obtain ⟨tracks, behind⟩ := Tracks.start some within
  have whole : first + (p - first) = p := Nat.add_sub_cancel' later.le
  obtain ⟨tracks', behind'⟩ :=
    @scan_tracks signed strings [b] table first (p - first) _ filled legible
    some tracks behind (by omega) fun q low high positive => earlier q (by omega) positive
  rw [whole] at tracks' behind'
  obtain ⟨k, known, blank, hit⟩ := turn_empty filled readable tracks' behind' later inside here
    empty read
  refine ⟨k, known, blank, ?_⟩
  have parts : List.range' first (last + 1 - first) =
      List.range' first (p - first) ++ p :: List.range' (p + 1) (last - p) := by
    have joined := @List.range'_append_1 first (p - first) (last - p + 1)
    rw [whole, List.range'_succ] at joined
    rw [joined]
    congr 1
    omega
  have met : (k, p) ∈ scanSubChunk signed strings.flatten (offsets 0 strings) table [b].length
      strings.length chunkId thread := by
    rw [ran, parts, List.foldl_append, List.foldl_cons]
    exact scan_hits _ hit
  exact List.mem_map.mpr ⟨_, met, rfl⟩

/-- One character is found in an empty string between others. -/
theorem not_exact_of_between (legible : Legible signed strings)
    (between : ¬ NoneBetween strings) : ∃ b, Readable signed b ∧ ¬ Exact signed strings [b] := by
  -- the first place where an empty string begins behind characters
  have places : ∃ p, 0 < p ∧ p < strings.flatten.length ∧
      ∃ i < strings.length, place strings i = p ∧ strings.getD i [] = [] := by
    rw [NoneBetween] at between
    push Not at between
    obtain ⟨i, inside, empty, start, stop⟩ := between
    exact ⟨place strings i, Nat.pos_of_ne_zero start,
      lt_of_le_of_ne place_le_all stop, i, inside, rfl, empty⟩
  obtain ⟨positive, below, i, inside, here, empty⟩ := Nat.find_spec places
  have earlier : ∀ q < Nat.find places, 0 < q → ∀ i < strings.length, place strings i = q →
      strings.getD i [] ≠ [] := fun q less positive i inside here empty =>
    Nat.find_min places less ⟨positive, less.trans below, i, inside, here, empty⟩
  generalize Nat.find places = p at *
  obtain ⟨b, read⟩ : ∃ b, strings.flatten.getD p 0 = b := ⟨_, rfl⟩
  have readable : Readable signed b := by
    rw [List.getD_eq_getElem _ _ below] at read
    exact read ▸ legible.char below
  refine ⟨b, readable, fun exact => ?_⟩
  obtain ⟨results, ran, -, right⟩ := exact fun _ => 0
  obtain ⟨table, built, filled⟩ := @kmpAutomato_filled signed [b] (fun _ => 0)
    (List.cons_ne_nil b []) (by
      rw [List.length_singleton]
      decide) (List.forall_mem_singleton.mpr readable)
  obtain ⟨-, results_iff⟩ := results_getD built ran
  obtain ⟨chunk, thread⟩ := @scheduled strings (p - 1) (by omega)
  obtain ⟨first, last, ends⟩ : ∃ first last, subChunk (strings.flatten.length - 1) 1
      ((p - 1) / chunkSize) ((p - 1) % chunkSize / subChunkSize) = (first, last) := ⟨_, _, rfl⟩
  obtain ⟨start, stop⟩ := subChunk_covers ends (by omega)
  obtain ⟨k, known, blank, hit⟩ := kernel_empty filled legible inside here empty read below
    earlier ends (by omega) (by omega)
  have found := (right k known).mp ((results_iff k known).mpr ⟨_, chunk, _, thread, hit⟩)
  rw [blank] at found
  exact absurd (List.infix_nil.mp found) (List.cons_ne_nil b [])

end Between

section Unsigned

variable {pattern : List UInt8} {table past : Table} {indices : List Nat} {s : Scan} {p u k : Nat}
  {b : UInt8}

/-- Nothing was found, and no state is further than the characters since the place `u`. -/
structure Fresh (u p : Nat) (s : Scan) : Prop where
  hits : s.hits = []
  low : s.j ≤ p
  since : u < p → s.j < p - u

theorem Fresh.enter (fresh : Fresh u p s) : Fresh u p (enter indices s p) := by
  rw [StringMatching.enter]
  split
  · exact ⟨fresh.hits, Nat.zero_le _, fun later => Nat.sub_pos_of_lt later⟩
  · exact fresh

/-- A pattern with a character without an entry is not found in itself. -/
theorem Fresh.turn (built : kmpAutomato false (fun _ => 0) pattern = .ok table)
    (unread : 128 ≤ (pattern.getD u 0).toNat) (known : u < pattern.length)
    (inside : p < pattern.length) (fresh : Fresh u p s) :
    Fresh u (p + 1) (turn false pattern indices table pattern.length s p) := by
  obtain ⟨hits, low, since⟩ := @Fresh.enter indices s p u fresh
  have small : (StringMatching.enter indices s p).j < pattern.length := by omega
  obtain ⟨bound, empty⟩ := advance_low built small (pattern.getD p 0)
  have state : advance false table (StringMatching.enter indices s p).j (pattern.getD p 0) ≤ p + 1 ∧
      (u ≤ p → advance false table (StringMatching.enter indices s p).j (pattern.getD p 0) <
        p + 1 - u) := by
    refine ⟨by omega, fun reached => ?_⟩
    obtain rfl | later := Nat.eq_or_lt_of_le reached
    · rw [empty unread]
      omega
    · have earlier := since later
      omega
  have running : ¬ advance false table (StringMatching.enter indices s p).j (pattern.getD p 0) ≥
      pattern.length := by
    by_cases reached : u ≤ p
    · have earlier := state.2 reached
      omega
    · omega
  rw [StringMatching.turn]
  simp only [if_neg running]
  exact ⟨hits, state.1, fun later => state.2 (by omega)⟩

theorem scan_fresh (built : kmpAutomato false (fun _ => 0) pattern = .ok table)
    (unread : 128 ≤ (pattern.getD u 0).toNat) (known : u < pattern.length)
    (inside : p + k ≤ pattern.length) (fresh : Fresh u p s) :
    ((List.range' p k).foldl (turn false pattern indices table pattern.length) s).hits = [] := by
  induction k generalizing p s with
  | zero => exact fresh.hits
  | succ k ih =>
    rw [List.range'_succ, List.foldl_cons]
    exact ih (by omega) (fresh.turn built unread known (by omega))

theorem flatten_one (s : List UInt8) : [s].flatten = s := by
  rw [List.flatten_cons, List.flatten_nil, List.append_nil]

theorem place_one (s : List UInt8) : place [s] 1 = s.length := by
  have all := @place_all _ [s]
  rwa [List.length_singleton, flatten_one] at all

theorem noneBetween_one (s : List UInt8) : NoneBetween [s] := by
  intro i inside _
  obtain rfl : i = 0 := by simpa using inside
  exact .inl place_zero

theorem not_exact_of_unread (unread : b ∈ pattern) (large : 128 ≤ b.toNat) :
    ¬ Exact false [pattern] pattern := by
  intro exact
  obtain ⟨results, ran, -, right⟩ := exact fun _ => 0
  obtain ⟨table, built⟩ : ∃ table, kmpAutomato false (fun _ => 0) pattern = .ok table := by
    cases built : kmpAutomato false (fun _ => 0) pattern with
    | ok table => exact ⟨table, rfl⟩
    | error exception =>
      rw [doStringMatching, built] at ran
      cases ran
  obtain ⟨-, results_iff⟩ := results_getD built ran
  obtain ⟨chunkId, -, thread, -, hit⟩ :=
    (results_iff 0 Nat.one_pos).mp ((right 0 Nat.one_pos).mpr List.infix_rfl)
  obtain ⟨u, known, rfl⟩ := List.getElem_of_mem unread
  obtain ⟨first, last, ends⟩ : ∃ first last, subChunk ([pattern].flatten.length - 1)
      pattern.length chunkId thread = (first, last) := ⟨_, _, rfl⟩
  have chars : 0 < [pattern].flatten.length := by
    rw [flatten_one]
    omega
  obtain ⟨low, order, high⟩ := subChunk_bounds ends
  obtain ⟨i, -, scanned⟩ := @kernel_run false [pattern] pattern table chunkId thread first last
    chars ends
  rw [flatten_one] at high scanned hit
  rw [singleTermKmpKernel, List.length_singleton] at hit
  rw [List.length_singleton] at scanned
  rw [scanned, scan_fresh built (by rwa [List.getD_eq_getElem _ _ known]) known (by omega)
    ⟨rfl, Nat.zero_le _, fun later => Nat.sub_pos_of_lt later⟩] at hit
  cases hit

theorem turn_inside {signed : Bool} {data : List UInt8} {size : Nat} (inside : p < s.termEnd) :
    turn signed data indices table size s p =
      if advance signed table s.j (data.getD p 0) ≥ size then
        { s with j := 0, hits := (s.term, p) :: s.hits }
      else { s with j := advance signed table s.j (data.getD p 0) } := by
  rw [turn, enter, if_neg (Nat.not_le.mpr inside)]

/-- Up to its last character but one a pattern is followed by the states. -/
theorem scan_take (filled : Filled false pattern table pattern.length)
    (readable : ∀ b ∈ pattern, Readable false b) (inside : k < pattern.length) {i : Nat} :
    (List.range' 0 k).foldl (turn false (pattern.take (pattern.length - 1) ++ [b]) indices table
      pattern.length) ⟨i, pattern.length, 0, []⟩ = ⟨i, pattern.length, k, []⟩ := by
  induction k with
  | zero => rfl
  | succ k ih =>
    have below : k < pattern.length := Nat.lt_of_succ_lt inside
    have read : (pattern.take (pattern.length - 1) ++ [b]).getD k 0 = pattern[k] := by
      rw [List.getD_append _ _ _ _ (by rw [List.length_take]; omega),
        List.getD_eq_getElem _ _ (by rw [List.length_take]; omega), List.getElem_take]
    have step : advance false table k pattern[k] = k + 1 := by
      rw [advance, filled k below _ (readable _ (List.getElem_mem below)), next_match below]
    rw [List.range'_1_concat, List.foldl_append, ih below, Nat.zero_add, List.foldl_cons,
      List.foldl_nil, turn_inside below, read]
    simp only [step]
    rw [if_neg (Nat.not_le.mpr inside)]

/-- Where `char` is unsigned, a character from 128 on in the place of a pattern's last one may be
taken for it. -/
theorem not_exact_of_unsigned (some : pattern ≠ [])
    (fits : pattern.length * charsInByte < 2 ^ 31)
    (readable : ∀ b ∈ pattern, Readable false b) :
    ∃ s, ¬ Exact false [s] pattern := by
  have positive := List.length_pos_iff.mpr some
  obtain ⟨b, large, other⟩ := exists_unreadable (pattern.getLast some)
  obtain ⟨table, built, filled⟩ := kmpAutomato_filled (fun _ => pattern.length) some fits readable
  obtain ⟨text, whole⟩ : ∃ text, text = pattern.take (pattern.length - 1) ++ [b] := ⟨_, rfl⟩
  have size : text.length = pattern.length := by
    rw [whole, List.length_append, List.length_take, List.length_singleton]
    omega
  refine ⟨text, fun exact => ?_⟩
  obtain ⟨results, ran, -, right⟩ := exact fun _ => pattern.length
  obtain ⟨-, results_iff⟩ := results_getD built ran
  have ends : subChunk ([text].flatten.length - 1) pattern.length 0 0 =
      (0, pattern.length - 1) := by
    rw [flatten_one, size]
    simp [subChunk, currChunkStart]
    omega
  obtain ⟨i, within, scanned⟩ := @kernel_run false [text] pattern table 0 0 0
    (pattern.length - 1) (by rw [flatten_one]; omega) ends
  obtain rfl : i = 0 := by simpa using within.lt
  have last : text.getD (pattern.length - 1) 0 = b := by
    rw [whole, List.getD_append_right _ _ _ _ (by rw [List.length_take]; omega), List.length_take,
      min_eq_left (by omega), Nat.sub_self]
    rfl
  have accepted : advance false table (pattern.length - 1) b = pattern.length := by
    rw [advance]
    refine kmpAutomato_past built ?_
    rw [charIndex_unsigned]
    unfold charsInByte
    omega
  have met : (0, pattern.length - 1) ∈ scanSubChunk false [text].flatten (offsets 0 [text]) table
      pattern.length [text].length 0 0 := by
    have split : List.range' 0 (pattern.length - 1 + 1 - 0) =
        List.range' 0 (pattern.length - 1) ++ [pattern.length - 1] := by
      rw [Nat.sub_zero, List.range'_1_concat, Nat.zero_add]
    rw [scanned, split, List.foldl_append, place_one, flatten_one, size, whole,
      scan_take filled readable (by omega), List.foldl_cons, List.foldl_nil,
      turn_inside (Nat.sub_lt positive Nat.one_pos), ← whole, last]
    simp only [accepted, ge_iff_le, le_refl, if_true]
    exact List.mem_cons_self
  have found := (right 0 Nat.one_pos).mp ((results_iff 0 Nat.one_pos).mpr
    ⟨0, by rw [flatten_one]; unfold chunkSize; omega, 0, by decide,
      List.mem_map.mpr ⟨_, met, rfl⟩⟩)
  have same : pattern = text := found.eq_of_length size.symm
  refine other ?_
  have ending := congrArg (fun text => text.getLast?) (same.trans whole)
  simp only [List.getLast?_append, List.getLast?_singleton, Option.some_or,
    List.getLast?_eq_some_getLast some] at ending
  exact (Option.some.inj ending).symm

end Unsigned

section Results

variable {signed : Bool} {strings : List (List UInt8)} {pattern : List UInt8}

theorem not_exact_of_overflow (long : 2 ^ 31 ≤ pattern.length * charsInByte) :
    ¬ Exact signed strings pattern := by
  intro exact
  obtain ⟨results, ran, -⟩ := exact fun _ => 0
  rw [doStringMatching, kmpAutomato_overflow long] at ran
  cases ran

theorem signed_of_exact (some : pattern ≠ []) (fits : pattern.length * charsInByte < 2 ^ 31)
    (all : ∀ strings, NoneBetween strings → Exact signed strings pattern) : signed = true := by
  cases signed with
  | true => rfl
  | false =>
    by_cases readable : ∀ b ∈ pattern, Readable false b
    · obtain ⟨s, wrong⟩ := not_exact_of_unsigned some fits readable
      exact absurd (all _ (noneBetween_one s)) wrong
    · push Not at readable
      obtain ⟨b, unread, behind⟩ := readable
      have large : 128 ≤ b.toNat := Nat.not_lt.mp fun small => behind (.inr small)
      exact absurd (all _ (noneBetween_one pattern)) (not_exact_of_unread unread large)

/-- The patterns whose table has a 32-bit size have exact results on a column if and only if no
empty string is between others, as far as the automaton can read both; and a pattern has exact
results on all columns without such a string if and only if its table has a 32-bit size and `char`
is signed. The patterns of greater size have none. -/
theorem doStringMatching_exact_iff (signed : Bool) :
    (∀ strings, Legible signed strings →
      ((∀ pattern, pattern ≠ [] → pattern.length * charsInByte < 2 ^ 31 →
        (∀ b ∈ pattern, Readable signed b) → Exact signed strings pattern) ↔
          NoneBetween strings)) ∧
    (∀ pattern, pattern ≠ [] →
      ((∀ strings, NoneBetween strings → Exact signed strings pattern) ↔
        pattern.length * charsInByte < 2 ^ 31 ∧ signed = true)) ∧
    ∀ strings pattern, 2 ^ 31 ≤ pattern.length * charsInByte → ¬ Exact signed strings pattern := by
  refine ⟨fun strings legible => ⟨fun all => ?_, fun none pattern some fits readable =>
    exact_of_none some fits readable legible none⟩, fun pattern some => ⟨fun all => ?_, ?_⟩,
    fun strings pattern long => not_exact_of_overflow long⟩
  · by_contra between
    obtain ⟨b, readable, wrong⟩ := not_exact_of_between legible between
    exact wrong (all [b] (List.cons_ne_nil b []) (by
      rw [List.length_singleton]
      decide) (List.forall_mem_singleton.mpr readable))
  · have fits : pattern.length * charsInByte < 2 ^ 31 := by
      by_contra long
      exact not_exact_of_overflow (Nat.not_lt.mp long) (all _ (noneBetween_one []))
    exact ⟨fits, signed_of_exact some fits all⟩
  · rintro ⟨fits, rfl⟩ strings none
    exact exact_of_none some fits (fun _ _ => .inl rfl) (fun _ _ _ _ => .inl rfl) none

/-- In the strings `a`, the empty one and `b` the pattern `b` is found in the empty one. -/
theorem found_in_empty : ¬ ∀ strings pattern, pattern ≠ [] → Exact true strings pattern := by
  intro all
  have between : ¬ NoneBetween [[97], [], [98]] := fun none => by
    obtain start | stop := none 1 (by decide) rfl
    · exact absurd start (by decide)
    · exact absurd stop (by decide)
  obtain ⟨b, -, wrong⟩ := @not_exact_of_between true _ (fun _ _ _ _ => .inl rfl) between
  exact wrong (all _ [b] (List.cons_ne_nil b []))

end Results

end StringMatching
