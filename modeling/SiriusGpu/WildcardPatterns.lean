import Mathlib

/-!
# Patterns with a wildcard

A pattern has literal values and a wildcard, which stands for any sequence. Its terms are the runs
of literal values; a sequence that matches has them in order.
-/

namespace WildcardPatterns

section Order

variable {α : Type}

/-- The terms, one behind the other. -/
def InOrder : List (List α) → List α → Prop
  | [], _ => True
  | t :: ts, s => ∃ before after, s = before ++ (t ++ after) ∧ InOrder ts after

theorem InOrder.of_suffix {ts : List (List α)} {r s : List α} (order : InOrder ts r)
    (suffix : r <:+ s) : InOrder ts s := by
  cases ts with
  | nil => trivial
  | cons t ts =>
    obtain ⟨before, after, rfl, rest⟩ := order
    obtain ⟨more, rfl⟩ := suffix
    exact ⟨more ++ before, after, (List.append_assoc ..).symm, rest⟩

end Order

variable {α : Type} [DecidableEq α] (wild : α)

def Matches : List α → List α → Prop
  | [], s => s = []
  | p :: pattern, s =>
    if p = wild then ∃ rest, rest <:+ s ∧ Matches pattern rest
    else ∃ rest, s = p :: rest ∧ Matches pattern rest

/-- The terms of a pattern behind the first values of a term. -/
def termsFrom (token : List α) : List α → List (List α)
  | [] => if token = [] then [] else [token]
  | p :: pattern =>
    if p = wild then
      if token = [] then termsFrom [] pattern else token :: termsFrom [] pattern
    else termsFrom (token ++ [p]) pattern

def terms (pattern : List α) : List (List α) := termsFrom wild [] pattern

section Lemmas

variable {wild} {pattern token s r : List α}

theorem termsFrom_append {literal : List α} (none : wild ∉ literal) :
    termsFrom wild token (literal ++ pattern) = termsFrom wild (token ++ literal) pattern := by
  induction literal generalizing token with
  | nil => rw [List.nil_append, List.append_nil]
  | cons p literal ih =>
    have differs : p ≠ wild := fun same => none (same ▸ List.mem_cons_self)
    have rest : wild ∉ literal := fun member => none (List.mem_cons_of_mem _ member)
    rw [List.cons_append, termsFrom, if_neg differs, ih rest, List.append_assoc,
      List.singleton_append]

theorem terms_ne_nil {t : List α} (member : t ∈ termsFrom wild token pattern) : t ≠ [] := by
  induction pattern generalizing token with
  | nil =>
    rw [termsFrom] at member
    split at member
    · cases member
    case isFalse some =>
      rw [List.mem_singleton.mp member]
      exact some
  | cons p pattern ih =>
    rw [termsFrom] at member
    split at member
    · split at member
      · exact ih member
      case isFalse some =>
        obtain rfl | later := List.mem_cons.mp member
        · exact some
        · exact ih later
    · exact ih member

theorem inOrder_of_matches_from (found : Matches wild pattern r) :
    InOrder (termsFrom wild token pattern) (token ++ r) := by
  induction pattern generalizing token r with
  | nil =>
    rw [termsFrom]
    split
    · trivial
    · exact ⟨[], r, rfl, trivial⟩
  | cons p pattern ih =>
    rw [Matches] at found
    rw [termsFrom]
    split at found
    case isTrue any =>
      obtain ⟨rest, suffix, found⟩ := found
      have later := @ih [] rest found
      rw [List.nil_append] at later
      rw [if_pos any]
      split
      case isTrue empty =>
        rw [empty, List.nil_append]
        exact later.of_suffix suffix
      · exact ⟨[], r, rfl, later.of_suffix suffix⟩
    case isFalse literal =>
      obtain ⟨rest, rfl, found⟩ := found
      have later := @ih (token ++ [p]) rest found
      rw [List.append_assoc, List.singleton_append] at later
      rwa [if_neg literal]

/-- A sequence that matches has the terms in order. -/
theorem inOrder_of_matches (found : Matches wild pattern s) : InOrder (terms wild pattern) s := by
  have order := @inOrder_of_matches_from _ _ wild pattern [] s found
  rwa [List.nil_append] at order

theorem matches_of_inOrder_from
    (last : pattern.getLast? = some wild ∨ pattern = [] ∧ token = [])
    (order : InOrder (termsFrom wild token pattern) s) :
    ∃ r, token ++ r <:+ s ∧ Matches wild pattern r := by
  induction pattern generalizing token s with
  | nil =>
    obtain last | ⟨-, rfl⟩ := last
    · cases last
    · exact ⟨[], List.nil_suffix, rfl⟩
  | cons p pattern ih =>
    have rest (token' : List α) (empty : pattern = [] → token' = []) :
        pattern.getLast? = some wild ∨ pattern = [] ∧ token' = [] := by
      obtain last | ⟨none, -⟩ := last
      · cases pattern with
        | nil => exact .inr ⟨rfl, empty rfl⟩
        | cons q pattern => exact .inl (by rwa [List.getLast?_cons_cons] at last)
      · cases none
    rw [termsFrom] at order
    split at order
    case isTrue any =>
      split at order
      case isTrue empty =>
        obtain ⟨r, suffix, found⟩ := ih (rest [] fun _ => rfl) order
        refine ⟨s, by rw [empty, List.nil_append], ?_⟩
        rw [Matches, if_pos any]
        exact ⟨r, suffix, found⟩
      case isFalse =>
        obtain ⟨before, after, rfl, later⟩ := order
        obtain ⟨r, suffix, found⟩ := ih (rest [] fun _ => rfl) later
        refine ⟨after, List.suffix_append _ _, ?_⟩
        rw [Matches, if_pos any]
        exact ⟨r, suffix, found⟩
    case isFalse literal =>
      have more : pattern ≠ [] := by
        rintro rfl
        obtain last | ⟨none, -⟩ := last
        · rw [List.getLast?_singleton] at last
          exact literal (Option.some.inj last)
        · cases none
      obtain ⟨r, suffix, found⟩ := ih (rest _ fun none => absurd none more) order
      refine ⟨p :: r, by rwa [List.append_assoc] at suffix, ?_⟩
      rw [Matches, if_neg literal]
      exact ⟨r, rfl, found⟩

/-- If the pattern begins and ends with the wildcard, the terms in order are a match. -/
theorem matches_of_inOrder (first : pattern.head? = some wild)
    (last : pattern.getLast? = some wild) (order : InOrder (terms wild pattern) s) :
    Matches wild pattern s := by
  cases pattern with
  | nil => cases first
  | cons p pattern =>
    have any : p = wild := Option.some.inj first
    rw [terms, termsFrom, if_pos any, if_pos rfl] at order
    have last' : pattern.getLast? = some wild ∨ pattern = [] ∧ ([] : List α) = [] := by
      cases pattern with
      | nil => exact .inr ⟨rfl, rfl⟩
      | cons q pattern => exact .inl (by rwa [List.getLast?_cons_cons] at last)
    obtain ⟨r, suffix, found⟩ := matches_of_inOrder_from last' order
    rw [Matches, if_pos any]
    exact ⟨r, suffix, found⟩

end Lemmas

end WildcardPatterns
