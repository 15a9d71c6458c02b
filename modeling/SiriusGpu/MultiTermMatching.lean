import Mathlib
import SiriusGpu.FallibleMaps
import SiriusGpu.StringMatching
import SiriusGpu.WildcardPatterns

/-!
# String matching with several terms

LIKE splits its pattern at the percent signs and matches the terms in passes over all characters.
A pass keeps, for each string, a place from which the matches of the next term count.
-/

namespace MultiTermMatching

open ColumnFormat KmpAutomaton StringMatching WildcardPatterns
open GpuMemory (Exception)

section Model

def splitDelimiter : UInt8 := 37

/-- `string_split`; empty tokens are dropped. -/
def stringSplit (s : List UInt8) : List (List UInt8) :=
  match _found : s.dropWhile (· ≠ splitDelimiter) with
  | [] => if s.length > 0 then [s] else []
  | _ :: rest =>
    let token := s.takeWhile (· ≠ splitDelimiter)
    if token.length > 0 then token :: stringSplit rest else stringSplit rest
termination_by s.length
decreasing_by all_goals
  have shorter := (List.dropWhile_suffix (l := s) (· ≠ splitDelimiter)).length_le
  rw [_found, List.length_cons] at shorter
  omega

/-- `multi_term_kmp_kernel` for a thread: its matches from the places of the strings on. -/
def multiTermKmpKernel (signed : Bool) (data : List UInt8) (indices : List Nat) (table : Table)
    (prevTermAnswer : List Nat) (patternSize numStrings chunkId thread : Nat) : List (Nat × Nat) :=
  (scanSubChunk signed data indices table patternSize numStrings chunkId thread).filter
    fun hit => hit.2 ≥ prevTermAnswer.getD hit.1 0

/-- The matches that all threads record for a term. -/
def termHits (signed : Bool) (strings : List (List UInt8)) (table : Table) (patternSize : Nat)
    (prevTermAnswer : List Nat) : List (Nat × Nat) :=
  let data := strings.flatten
  let workersNeeded := (data.length + chunkSize - 1) / chunkSize
  (List.range workersNeeded).flatMap fun chunkId =>
    (List.range threadsPerBlock).flatMap fun thread =>
    multiTermKmpKernel signed data (offsets 0 strings) table prevTermAnswer patternSize
      strings.length chunkId thread

/-- The least place behind the matches of a string, from the number of characters on. -/
def termAnswer (byteCount patternSize : Nat) (hits : List (Nat × Nat)) (i : Nat) : Nat :=
  (hits.filter (·.1 = i)).foldl (fun answer hit => min answer (hit.2 + patternSize)) byteCount

/-- The loop over the terms. -/
def matchTerms (signed : Bool) (strings : List (List UInt8)) :
    List (List UInt8 × Table) → (prevAnswerIdxs : List Nat) → (output : List Bool) → List Bool
  | [], _, output => output
  | (term, table) :: rest, prevAnswerIdxs, _ =>
    let hits := termHits signed strings table term.length prevAnswerIdxs
    matchTerms signed strings rest
      ((List.range strings.length).map (termAnswer strings.flatten.length term.length hits))
      ((List.range strings.length).map fun i => hits.any (·.1 = i))

/-- `DoMultiStringMatching`, with what its output buffer held and what lies behind the table of
each term. -/
def doMultiStringMatching (signed : Bool) (past : Nat → Table) (junk : List Bool)
    (strings matchStrings : List (List UInt8)) : Except Exception (List Bool) := do
  let tables ← matchStrings.zipIdx.mapM fun term => kmpAutomato signed (past term.2) term.1
  .ok (matchTerms signed strings (matchStrings.zip tables)
    ((offsets 0 strings).take strings.length) junk)

/-- `DispatchStringMatching` for LIKE. -/
def dispatchLike (signed : Bool) (past : Nat → Table) (junk : List Bool)
    (strings : List (List UInt8)) (matchStr : List UInt8) : Except Exception (List Bool) :=
  doMultiStringMatching signed past junk strings (stringSplit matchStr)

end Model

section Meaning

variable (signed : Bool) (strings : List (List UInt8)) (pattern : List UInt8)

/-- The result of a string says whether it matches the pattern, whatever the memory held. -/
def ExactLike : Prop :=
  ∀ past, ∀ junk : List Bool, junk.length = strings.length →
    ∃ results, dispatchLike signed past junk strings pattern = .ok results ∧
      results.length = strings.length ∧ ∀ i < strings.length,
        (results.getD i false = true ↔ Matches splitDelimiter pattern (strings.getD i []))

/-- An occurrence of the second term is behind one of the first exactly if their ends are as far
apart as the first is long. -/
def Spaced (first second : List UInt8) : Prop :=
  ∀ i x y, Occurs strings first i x → Occurs strings second i y →
    (x + first.length ≤ y ↔ x + 2 * first.length ≤ y + second.length)

/-- No two occurrences of the term overlap in a string. -/
def Apart (term : List UInt8) : Prop :=
  ∀ i x y, Occurs strings term i x → Occurs strings term i y → x < y → x + term.length ≤ y

/-- What the passes rely on. -/
structure Clear : Prop where
  legible : Legible signed strings
  none : NoneBetween strings
  some : stringSplit pattern ≠ []
  fits : ∀ term ∈ stringSplit pattern, term.length * charsInByte < 2 ^ 31
  readable : ∀ term ∈ stringSplit pattern, ∀ b ∈ term, Readable signed b
  apart : ∀ term ∈ (stringSplit pattern).tail, Apart strings term
  spaced : (stringSplit pattern).IsChain (Spaced strings)

end Meaning

section Splitting

variable {s rest : List UInt8} {head : UInt8}

/-- Up to the delimiter, and from it on. -/
theorem terms_split : terms splitDelimiter s = termsFrom splitDelimiter
    (s.takeWhile (· ≠ splitDelimiter)) (s.dropWhile (· ≠ splitDelimiter)) := by
  have literal : splitDelimiter ∉ s.takeWhile (· ≠ splitDelimiter) := fun member => by
    have differs := List.mem_takeWhile_imp member
    simp at differs
  have cut := @termsFrom_append _ _ _ (s.dropWhile (· ≠ splitDelimiter)) [] _ literal
  rwa [List.takeWhile_append_dropWhile, List.nil_append] at cut

theorem found_delimiter (found : s.dropWhile (· ≠ splitDelimiter) = head :: rest) :
    head = splitDelimiter := by
  have some : s.dropWhile (· ≠ splitDelimiter) ≠ [] := by
    rw [found]
    exact List.cons_ne_nil _ _
  have differs := List.head_dropWhile_not (· ≠ splitDelimiter) some
  simp only [found, List.head_cons] at differs
  simpa using differs

/-- The tokens are the terms of the pattern. -/
theorem stringSplit_eq (s : List UInt8) : stringSplit s = terms splitDelimiter s := by
  fun_induction stringSplit s with
  | case1 s found some =>
    have whole := @List.takeWhile_append_dropWhile _ (· ≠ splitDelimiter) s
    rw [found, List.append_nil] at whole
    rw [terms_split, found, whole, termsFrom, if_neg (List.length_pos_iff.mp some)]
  | case2 s found none =>
    have empty : s = [] := List.eq_nil_of_length_eq_zero (by omega)
    rw [empty]
    rfl
  | case3 s head rest found token some ih =>
    rw [terms_split, found, termsFrom, if_pos (found_delimiter found),
      if_neg (List.length_pos_iff.mp some), ih, terms]
  | case4 s head rest found token none ih =>
    have empty : token = [] := List.eq_nil_of_length_eq_zero (by omega)
    rw [terms_split, found, termsFrom, if_pos (found_delimiter found), if_pos empty, ih, terms]

end Splitting

section Passes

variable {signed : Bool} {strings : List (List UInt8)} {term : List UInt8} {table : Table}
  {prev : List Nat} {i x q : Nat}

theorem mem_termHits {hit : Nat × Nat} : hit ∈ termHits signed strings table term.length prev ↔
    ∃ chunkId < (strings.flatten.length + chunkSize - 1) / chunkSize,
      ∃ thread < threadsPerBlock,
        hit ∈ scanSubChunk signed strings.flatten (offsets 0 strings) table
        term.length strings.length chunkId thread ∧ prev.getD hit.1 0 ≤ hit.2 := by
  simp [termHits, multiTermKmpKernel]

/-- What is recorded is an occurrence that ends from the place of its string on, -/
theorem termHits_sound (filled : Filled signed term table term.length)
    (legible : Legible signed strings)
    (some : term ≠ []) (none : NoneBetween strings) {hit : Nat × Nat}
    (recorded : hit ∈ termHits signed strings table term.length prev) :
    ∃ x, x + term.length = hit.2 + 1 ∧ Occurs strings term hit.1 x ∧
      prev.getD hit.1 0 < x + term.length := by
  obtain ⟨chunkId, launched, thread, -, met, behind⟩ := mem_termHits.mp recorded
  obtain ⟨x, last, occurs⟩ := scan_sound filled legible some none launched met
  exact ⟨x, last, occurs, by omega⟩

/-- and so is every such occurrence that no other one overlaps from before. -/
theorem termHits_complete (filled : Filled signed term table term.length)
    (legible : Legible signed strings)
    (some : term ≠ []) (none : NoneBetween strings) (occurs : Occurs strings term i x)
    (behind : prev.getD i 0 < x + term.length)
    (alone : ∀ y < x, x < y + term.length → ¬ Occurs strings term i y) :
    (i, x + term.length - 1) ∈ termHits signed strings table term.length prev := by
  obtain ⟨chunkId, launched, thread, small, met⟩ :=
    scan_complete filled legible some none occurs alone
  exact mem_termHits.mpr ⟨chunkId, launched, thread, small, met, by simp only; omega⟩

theorem foldl_min_lt (hits : List (Nat × Nat)) (size first v : Nat) :
    hits.foldl (fun answer hit => min answer (hit.2 + size)) first < v ↔
      first < v ∨ ∃ hit ∈ hits, hit.2 + size < v := by
  induction hits generalizing first with
  | nil => simp
  | cons hit hits ih =>
    rw [List.foldl_cons, ih, min_lt_iff, or_assoc]
    simp

theorem termAnswer_lt {byteCount size v : Nat} {hits : List (Nat × Nat)} (bound : v ≤ byteCount) :
    termAnswer byteCount size hits i < v ↔ ∃ e, (i, e) ∈ hits ∧ e + size < v := by
  rw [termAnswer, foldl_min_lt]
  constructor
  · rintro (less | ⟨hit, member, less⟩)
    · exact absurd (less.trans_le bound) (Nat.lt_irrefl _)
    · obtain ⟨known, same⟩ := List.mem_filter.mp member
      obtain rfl := of_decide_eq_true same
      exact ⟨hit.2, known, less⟩
  · rintro ⟨e, known, less⟩
    exact .inr ⟨(i, e), List.mem_filter.mpr ⟨known, by simp⟩, less⟩

/-- The terms occur one behind the other as the passes see it: each ends from a place on that is
twice the length of the term before behind its start. -/
def Passed (strings : List (List UInt8)) (i : Nat) : List (List UInt8) → Nat → Prop
  | [], _ => True
  | term :: rest, q => ∃ x, Occurs strings term i x ∧ q < x + term.length ∧
      Passed strings i rest (x + 2 * term.length - 1)

/-- A term whose first occurrence from a place on is recorded. -/
def FirstAlone (strings : List (List UInt8)) (term : List UInt8) (i q : Nat) : Prop :=
  ∀ x, Occurs strings term i x → q < x + term.length →
    (∀ y, Occurs strings term i y → q < y + term.length → x ≤ y) →
      ∀ y < x, x < y + term.length → ¬ Occurs strings term i y

/-- Of the occurrences from a place on the first is recorded. -/
theorem exists_recorded (filled : Filled signed term table term.length)
    (legible : Legible signed strings)
    (some : term ≠ []) (none : NoneBetween strings)
    (alone : FirstAlone strings term i (prev.getD i 0))
    (occurs : Occurs strings term i x) (behind : prev.getD i 0 < x + term.length) :
    ∃ y ≤ x, (i, y + term.length - 1) ∈ termHits signed strings table term.length prev := by
  classical
  have reached : ∃ x, Occurs strings term i x ∧ prev.getD i 0 < x + term.length :=
    ⟨x, occurs, behind⟩
  obtain ⟨occurs', behind'⟩ := Nat.find_spec reached
  have least : ∀ y, Occurs strings term i y → prev.getD i 0 < y + term.length →
      Nat.find reached ≤ y := fun y occurs behind => Nat.find_min' reached ⟨occurs, behind⟩
  exact ⟨Nat.find reached, least x occurs behind,
    termHits_complete filled legible some none occurs' behind'
    (alone _ occurs' behind' least)⟩

theorem found_iff (filled : Filled signed term table term.length) (legible : Legible signed strings)
    (some : term ≠ []) (none : NoneBetween strings)
    (alone : FirstAlone strings term i (prev.getD i 0)) :
    ((termHits signed strings table term.length prev).any (·.1 = i)) = true ↔
      ∃ x, Occurs strings term i x ∧ prev.getD i 0 < x + term.length := by
  rw [List.any_eq_true]
  constructor
  · rintro ⟨hit, recorded, same⟩
    obtain rfl := of_decide_eq_true same
    obtain ⟨x, -, occurs, behind⟩ := termHits_sound filled legible some none recorded
    exact ⟨x, occurs, behind⟩
  · rintro ⟨x, occurs, behind⟩
    obtain ⟨y, -, recorded⟩ := exists_recorded filled legible some none alone occurs behind
    exact ⟨_, recorded, by simp⟩

/-- From the answer of a term on the next terms are passed exactly if they are behind some
occurrence that is reached. -/
theorem passed_answer (filled : Filled signed term table term.length)
    (legible : Legible signed strings)
    (some : term ≠ []) (none : NoneBetween strings)
    (alone : FirstAlone strings term i (prev.getD i 0))
    {next : List UInt8} {rest : List (List UInt8)} :
    Passed strings i (next :: rest) (termAnswer strings.flatten.length term.length
        (termHits signed strings table term.length prev) i) ↔
      ∃ x, Occurs strings term i x ∧ prev.getD i 0 < x + term.length ∧
        Passed strings i (next :: rest) (x + 2 * term.length - 1) := by
  have positive := List.length_pos_iff.mpr some
  constructor
  · rintro ⟨y, occurs, behind, later⟩
    have bound := occurs.2.1.trans place_le_all
    obtain ⟨e, recorded, less⟩ := (termAnswer_lt bound).mp behind
    obtain ⟨x, last, occurs', reached⟩ := termHits_sound filled legible some none recorded
    exact ⟨x, occurs', reached, y, occurs, by simp only at last; omega, later⟩
  · rintro ⟨x, occurs, reached, y, occurs', behind, later⟩
    obtain ⟨z, before, recorded⟩ := exists_recorded filled legible some none alone occurs reached
    have bound := occurs'.2.1.trans place_le_all
    exact ⟨y, occurs', (termAnswer_lt bound).mpr ⟨_, recorded, by omega⟩, later⟩

end Passes

section Runs

variable {signed : Bool} {strings : List (List UInt8)} {term : List UInt8}
  {ts : List (List UInt8)} {table : Table} {tables : List Table} {i x p : Nat}

theorem firstAlone_of_apart (apart : Apart strings term) (i q : Nat) :
    FirstAlone strings term i q := fun x occurs _ _ y before inner occurs' =>
  absurd (apart i y x occurs' occurs before) (Nat.not_le.mpr inner)

/-- From the start of a string on the first occurrence is the first of all. -/
theorem firstAlone_start (some : term ≠ []) : FirstAlone strings term i (place strings i) := by
  have positive := List.length_pos_iff.mpr some
  intro x occurs _ least y before _ occurs'
  have low := occurs'.1
  exact absurd (least y occurs' (by omega)) (Nat.not_le.mpr before)

/-- What the loop leaves in the output for a string. -/
theorem matchTerms_iff (legible : Legible signed strings) (none : NoneBetween strings)
    (inside : i < strings.length)
    (filled : List.Forall₂ (fun term table => Filled signed term table term.length) (term :: ts)
      (table :: tables)) (some : ∀ t ∈ term :: ts, t ≠ [])
    (apart : ∀ t ∈ ts, Apart strings t) {prev : List Nat} {output : List Bool}
    (alone : FirstAlone strings term i (prev.getD i 0)) :
    (matchTerms signed strings ((term :: ts).zip (table :: tables)) prev output).getD i false =
      true ↔
      Passed strings i (term :: ts) (prev.getD i 0) := by
  induction ts generalizing term table tables prev output with
  | nil =>
    obtain ⟨head, tail⟩ := List.forall₂_cons.mp filled
    cases tail
    simp only [List.zip_cons_cons, List.zip_nil_right, matchTerms]
    rw [List.getD_eq_getElem _ _ (by simpa using inside), List.getElem_map, List.getElem_range,
      found_iff head legible (some term List.mem_cons_self) none alone]
    simp only [Passed, and_true]
  | cons next ts ih =>
    obtain ⟨head, tail⟩ := List.forall₂_cons.mp filled
    obtain ⟨nextTable, tables, -, -, rfl⟩ := List.forall₂_cons_left_iff.mp tail
    have answer : ((List.range strings.length).map (termAnswer strings.flatten.length term.length
        (termHits signed strings table term.length prev))).getD i 0 =
          termAnswer strings.flatten.length term.length
            (termHits signed strings table term.length prev) i := by
      rw [List.getD_eq_getElem _ _ (by simpa using inside), List.getElem_map, List.getElem_range]
    rw [List.zip_cons_cons, matchTerms,
      ih tail (fun t member => some t (List.mem_cons_of_mem _ member))
      (fun t member => apart t (List.mem_cons_of_mem _ member))
      (firstAlone_of_apart (apart next List.mem_cons_self) _ _), answer,
      passed_answer head legible (some term List.mem_cons_self) none alone]
    rfl

theorem matchTerms_length {prev : List Nat} (pairs : List (List UInt8 × Table))
    (output : List Bool) (some : pairs ≠ []) :
    (matchTerms signed strings pairs prev output).length = strings.length := by
  induction pairs generalizing prev output with
  | nil => exact absurd rfl some
  | cons pair pairs ih =>
    obtain ⟨term, table⟩ := pair
    cases pairs with
    | nil => simp [matchTerms]
    | cons next pairs =>
      rw [matchTerms]
      exact ih _ (List.cons_ne_nil _ _)

/-- The terms occur one behind the other. -/
def Follow (strings : List (List UInt8)) (i : Nat) : List (List UInt8) → Nat → Prop
  | [], _ => True
  | term :: rest, p => ∃ x, p ≤ x ∧ Occurs strings term i x ∧
      Follow strings i rest (x + term.length)

theorem passed_iff_follow_later (spaced : (term :: ts).IsChain (Spaced strings))
    (some : ∀ t ∈ term :: ts, t ≠ []) (occurs : Occurs strings term i x) :
    Passed strings i ts (x + 2 * term.length - 1) ↔ Follow strings i ts (x + term.length) := by
  induction ts generalizing term x with
  | nil => exact Iff.rfl
  | cons next ts ih =>
    obtain ⟨apart, later⟩ := List.isChain_cons_cons.mp spaced
    have positive := List.length_pos_iff.mpr (some term List.mem_cons_self)
    have rest (y : Nat) (occurs' : Occurs strings next i y) :=
      ih later (fun t member => some t (List.mem_cons_of_mem _ member)) occurs'
    constructor
    · rintro ⟨y, occurs', behind, passed⟩
      exact ⟨y, (apart i x y occurs occurs').mpr (by omega), occurs', (rest y occurs').mp passed⟩
    · rintro ⟨y, behind, occurs', follow⟩
      have ends := (apart i x y occurs occurs').mp behind
      exact ⟨y, occurs', by omega, (rest y occurs').mpr follow⟩

/-- With spaced terms the passes see what follows. -/
theorem passed_iff_follow (spaced : (term :: ts).IsChain (Spaced strings))
    (some : ∀ t ∈ term :: ts, t ≠ []) :
    Passed strings i (term :: ts) (place strings i) ↔
      Follow strings i (term :: ts) (place strings i) := by
  have positive := List.length_pos_iff.mpr (some term List.mem_cons_self)
  constructor
  · rintro ⟨x, occurs, -, passed⟩
    exact ⟨x, occurs.1, occurs, (passed_iff_follow_later spaced some occurs).mp passed⟩
  · rintro ⟨x, low, occurs, follow⟩
    exact ⟨x, occurs, by omega, (passed_iff_follow_later spaced some occurs).mpr follow⟩

theorem follow_iff_inOrder (low : place strings i ≤ p) (high : p ≤ place strings (i + 1)) :
    Follow strings i ts p ↔ InOrder ts (slice strings.flatten p (place strings (i + 1))) := by
  induction ts generalizing p with
  | nil => exact Iff.rfl
  | cons term ts ih =>
    constructor
    · rintro ⟨x, from_p, occurs, follow⟩
      obtain ⟨-, until_i, same⟩ := occurs
      refine ⟨slice strings.flatten p x, slice strings.flatten (x + term.length)
        (place strings (i + 1)), ?_, (ih (by omega) until_i).mp follow⟩
      have joined := @slice_append _ strings.flatten x (place strings (i + 1)) (x + term.length)
        (Nat.le_add_right _ _) until_i
      rw [same] at joined
      rw [joined, slice_append from_p (by omega)]
    · rintro ⟨before, after, parts, rest⟩
      have size := congrArg List.length parts
      rw [slice_length place_le_all, List.length_append, List.length_append] at size
      have first := @slice_append _ strings.flatten p (place strings (i + 1)) (p + before.length)
        (Nat.le_add_right _ _) (by omega)
      have length := @slice_length _ strings.flatten p (p + before.length)
        (by have := @place_le_all _ strings (i + 1); omega)
      rw [parts] at first
      obtain ⟨-, behind⟩ := List.append_inj first (by omega)
      have second := @slice_append _ strings.flatten (p + before.length)
        (place strings (i + 1)) (p + before.length + term.length) (Nat.le_add_right _ _) (by omega)
      have length' := @slice_length _ strings.flatten (p + before.length)
        (p + before.length + term.length)
        (by have := @place_le_all _ strings (i + 1); omega)
      rw [behind] at second
      obtain ⟨here, later⟩ := List.append_inj second (by omega)
      refine ⟨p + before.length, Nat.le_add_right _ _, ⟨by omega, by omega, here⟩, ?_⟩
      rw [ih (by omega) (by omega), later]
      exact rest

end Runs

section Results

variable {signed : Bool} {strings : List (List UInt8)} {pattern term : List UInt8}

/-- With clear terms the result of a string says whether they are in it in order. -/
theorem dispatchLike_inOrder (clear : Clear signed strings pattern) (past : Nat → Table)
    (junk : List Bool) :
    ∃ results, dispatchLike signed past junk strings pattern = .ok results ∧
      results.length = strings.length ∧ ∀ i < strings.length,
        (results.getD i false = true ↔ InOrder (stringSplit pattern) (strings.getD i [])) := by
  have some : ∀ t ∈ stringSplit pattern, t ≠ [] := by
    rw [stringSplit_eq]
    exact fun t member => terms_ne_nil member
  have built (term : List UInt8 × Nat) (member : term ∈ (stringSplit pattern).zipIdx) :
      ∃ table, kmpAutomato signed (past term.2) term.1 = .ok table ∧
        Filled signed term.1 table term.1.length := by
    have known := List.fst_mem_of_mem_zipIdx member
    exact kmpAutomato_filled _ (some _ known) (clear.fits _ known) (clear.readable _ known)
  obtain ⟨tables, built, filled⟩ := FallibleMaps.mapM_ok built
  have filled : List.Forall₂ (fun term table => Filled signed term table term.length)
      (stringSplit pattern) tables := by
    have mapped : List.Forall₂ (fun term table => Filled signed term table term.length)
        ((stringSplit pattern).zipIdx.map Prod.fst) tables := List.forall₂_map_left_iff.mpr filled
    rwa [List.zipIdx_map_fst] at mapped
  refine ⟨matchTerms signed strings ((stringSplit pattern).zip tables)
    ((offsets 0 strings).take strings.length) junk, ?_, ?_, fun i inside => ?_⟩
  · rw [dispatchLike, doMultiStringMatching, built]
    rfl
  · obtain ⟨term, ts, split⟩ := List.exists_cons_of_ne_nil clear.some
    rw [split] at filled ⊢
    obtain ⟨table, tables, -, tail, rfl⟩ := List.forall₂_cons_left_iff.mp filled
    exact matchTerms_length _ _ (List.cons_ne_nil _ _)
  · have start : ((offsets 0 strings).take strings.length).getD i 0 = place strings i := by
      rw [List.getD_eq_getElem?_getD, List.getElem?_take_of_lt inside,
        ← List.getD_eq_getElem?_getD, getD_offsets inside.le]
    obtain ⟨term, ts, split⟩ := List.exists_cons_of_ne_nil clear.some
    have apart := clear.apart
    have spaced := clear.spaced
    rw [split] at some filled apart spaced ⊢
    obtain ⟨table, tables, -, -, rfl⟩ := List.forall₂_cons_left_iff.mp filled
    have alone : FirstAlone strings term i
        (((offsets 0 strings).take strings.length).getD i 0) := by
      rw [start]
      exact firstAlone_start (some term List.mem_cons_self)
    rw [matchTerms_iff clear.legible clear.none inside filled some apart alone, start,
      passed_iff_follow spaced some, follow_iff_inOrder le_rfl (place_le (Nat.le_succ i)),
      slice_string inside]

/-- With clear terms the matching is exact if and only if no string has the terms in order without
being anchored as the pattern asks. -/
theorem exactLike_iff_anchored (clear : Clear signed strings pattern) :
    ExactLike signed strings pattern ↔ ∀ i < strings.length,
      InOrder (stringSplit pattern) (strings.getD i []) →
        Matches splitDelimiter pattern (strings.getD i []) := by
  constructor
  · intro exact i inside order
    obtain ⟨results, ran, -, right⟩ := exact (fun _ _ => 0) (List.replicate strings.length false)
      List.length_replicate
    obtain ⟨results', ran', -, found⟩ :=
      dispatchLike_inOrder clear (fun _ _ => 0) (List.replicate strings.length false)
    rw [ran] at ran'
    cases ran'
    exact (right i inside).mp ((found i inside).mpr order)
  · intro anchored past junk _
    obtain ⟨results, ran, size, found⟩ := dispatchLike_inOrder clear past junk
    refine ⟨results, ran, size, fun i inside => (found i inside).trans ⟨anchored i inside, ?_⟩⟩
    intro found
    rw [stringSplit_eq]
    exact inOrder_of_matches found

/-- A pattern that begins and ends with a percent sign asks for no anchors. -/
theorem anchored_of_open (first : pattern.head? = some splitDelimiter)
    (last : pattern.getLast? = some splitDelimiter) {s : List UInt8}
    (order : InOrder (stringSplit pattern) s) : Matches splitDelimiter pattern s := by
  rw [stringSplit_eq] at order
  exact matches_of_inOrder first last order

theorem occurs_char {i x k : Nat} (occurs : Occurs strings term i x) (inside : k < term.length) :
    strings.flatten[x + k]? = term[k]? := by
  have same : (slice strings.flatten x (x + term.length))[k]? = term[k]? := by rw [occurs.2.2]
  rw [← same, slice, List.getElem?_take_of_lt (by omega), List.getElem?_drop]

/-- A term whose first character comes no second time overlaps no other occurrence of it. -/
theorem apart_of_nodup (distinct : term.Nodup) : Apart strings term := by
  intro i x y first second before
  by_contra inner
  have room : y - x < term.length := by omega
  have here := occurs_char first room
  have there := occurs_char second (show 0 < term.length by omega)
  rw [Nat.add_sub_cancel' before.le] at here
  rw [Nat.add_zero, here] at there
  rw [List.getElem?_eq_getElem room, List.getElem?_eq_getElem (by omega),
    Option.some_inj, distinct.getElem_inj_iff] at there
  omega

/-- Terms of one length, without a character twice, are clear. -/
theorem clear_of_nodup {n : Nat} (legible : Legible signed strings) (none : NoneBetween strings)
    (some : stringSplit pattern ≠ []) (fits : n * charsInByte < 2 ^ 31)
    (readable : ∀ term ∈ stringSplit pattern, ∀ b ∈ term, Readable signed b)
    (length : ∀ term ∈ stringSplit pattern, term.length = n)
    (distinct : ∀ term ∈ stringSplit pattern, term.Nodup) : Clear signed strings pattern := by
  refine ⟨legible, none, some, fun term member => by rwa [length term member], readable,
    fun term member => apart_of_nodup (distinct term (List.mem_of_mem_tail member)), ?_⟩
  have spaced : ∀ first ∈ stringSplit pattern, ∀ second ∈ stringSplit pattern,
      Spaced strings first second := fun first known second known' i x y _ _ => by
    rw [length first known, length second known']
    omega
  exact (List.pairwise_of_forall_mem_list spaced).isChain

/-- Of the strings ``, `xabycd`, `cdab`, `abcab` and `abcdé` the second and the last one match
`%ab%cd%`. -/
theorem words_found : ExactLike true
    [[], [120, 97, 98, 121, 99, 100], [99, 100, 97, 98], [97, 98, 99, 97, 98],
      [97, 98, 99, 100, 195, 169]] [37, 97, 98, 37, 99, 100, 37] := by
  have split : stringSplit [37, 97, 98, 37, 99, 100, 37] = [[97, 98], [99, 100]] := by
    rw [stringSplit_eq]
    rfl
  refine (exactLike_iff_anchored (@clear_of_nodup true _ _ 2 (fun _ _ _ _ => .inl rfl) ?_ ?_
    (by decide) (fun _ _ _ _ => .inl rfl) ?_ ?_)).mpr fun i _ => anchored_of_open rfl rfl
  · intro i inside empty
    obtain rfl : i = 0 := by
      simp only [List.length_cons, List.length_nil] at inside
      interval_cases i <;> first | rfl | cases empty
    exact .inl place_zero
  · rw [split]
    exact List.cons_ne_nil _ _
  · rw [split]
    decide
  · rw [split]
    decide

/-- `xab` is found to match `a%b`. -/
theorem anchor_ignored : ¬ ∀ strings pattern, ExactLike true strings pattern := by
  intro all
  have split : stringSplit [97, 37, 98] = [[97], [98]] := by
    rw [stringSplit_eq]
    rfl
  have clear : Clear true [[120, 97, 98]] [97, 37, 98] := by
    refine @clear_of_nodup true _ _ 1 (fun _ _ _ _ => .inl rfl) (noneBetween_one _) ?_ (by decide)
      (fun _ _ _ _ => .inl rfl) ?_ ?_ <;> rw [split] <;> decide
  obtain ⟨results, ran, -, right⟩ := all [[120, 97, 98]] [97, 37, 98] (fun _ _ => 0) [false] rfl
  obtain ⟨results', ran', -, found⟩ := dispatchLike_inOrder clear (fun _ _ => 0) [false]
  rw [ran] at ran'
  cases ran'
  have order : InOrder (stringSplit [97, 37, 98]) [120, 97, 98] := by
    rw [split]
    exact ⟨[120], [98], rfl, [], [], rfl, trivial⟩
  have anchored := (right 0 Nat.one_pos).mp ((found 0 Nat.one_pos).mpr order)
  rw [Matches, if_neg (by decide)] at anchored
  obtain ⟨rest, same, -⟩ := anchored
  exact absurd (List.cons.inj same).1 (by decide)

end Results

end MultiTermMatching
