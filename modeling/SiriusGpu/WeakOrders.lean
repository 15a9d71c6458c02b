import Mathlib

/-!
# Sorts by a strict test

A sort that is given a test for "before" leaves the members the test does not separate in any
order. Insertion gives such a sort, also one that has a given member first among its equals.
-/

namespace WeakOrders

variable {α : Type} {less : α → α → Bool}

/-- A strict weak order: not being after is transitive. -/
structure StrictWeak (less : α → α → Bool) : Prop where
  asymm : ∀ a b, less a b = true → less b a = false
  trans : ∀ a b c, less b a = false → less c b = false → less c a = false

/-- The members of a list, none before an earlier one. -/
structure SortedBy (less : α → α → Bool) (l sorted : List α) : Prop where
  perm : sorted.Perm l
  ordered : sorted.Pairwise fun a b => less b a = false

def Sorts (sort : (α → α → Bool) → List α → List α) : Prop :=
  ∀ less, StrictWeak less → ∀ l, SortedBy less l (sort less l)

theorem StrictWeak.irrefl (weak : StrictWeak less) (a : α) : less a a = false := by
  cases before : less a a with
  | false => rfl
  | true => rw [weak.asymm a a before] at before; cases before

theorem StrictWeak.swap (weak : StrictWeak less) : StrictWeak fun a b => less b a where
  asymm a b before := weak.asymm b a before
  trans a b c ab bc := weak.trans c b a bc ab

theorem SortedBy.mem (sorted : SortedBy less l l') {a : α} : a ∈ l' ↔ a ∈ l := sorted.perm.mem_iff

theorem SortedBy.length_eq (sorted : SortedBy less l l') : l'.length = l.length :=
  sorted.perm.length_eq

/-- Two sorts one after the other, if all members of the first come before. -/
theorem SortedBy.append {front front' back back' : List α} (first : SortedBy less front front')
    (second : SortedBy less back back')
    (between : ∀ a ∈ front, ∀ b ∈ back, less b a = false) :
    SortedBy less (front ++ back) (front' ++ back') where
  perm := first.perm.append second.perm
  ordered := List.pairwise_append.mpr ⟨first.ordered, second.ordered, fun a inside b inside' =>
    between a (first.mem.mp inside) b (second.mem.mp inside')⟩

/-- The first member is not after any other. -/
theorem SortedBy.head_least {a b : α} {rest : List α} (weak : StrictWeak less)
    (sorted : SortedBy less l (a :: rest)) (member : b ∈ l) : less b a = false := by
  rcases List.mem_cons.mp (sorted.mem.mpr member) with rfl | later
  · exact weak.irrefl b
  · exact List.rel_of_pairwise_cons sorted.ordered later

/-- A sort by insertion. -/
def insertion (less : α → α → Bool) (l : List α) : List α :=
  l.insertionSort fun a b => less b a = false

theorem insertion_sorts : Sorts (insertion (α := α)) := by
  intro less weak l
  have total : Std.Total fun a b : α => less b a = false := by
    constructor
    intro a b
    cases before : less b a with
    | false => exact Or.inl rfl
    | true => exact Or.inr (weak.asymm b a before)
  have transitive : IsTrans α fun a b => less b a = false :=
    ⟨fun a b c ab bc => weak.trans a b c ab bc⟩
  exact ⟨List.perm_insertionSort _ _, List.pairwise_insertionSort _ _⟩

section Favouring

variable [DecidableEq α]

/-- The list with a member moved to the front. -/
def toFront (t : α) (l : List α) : List α := if t ∈ l then t :: l.erase t else l

def favouring (t : α) (less : α → α → Bool) (l : List α) : List α := insertion less (toFront t l)

theorem toFront_perm (t : α) (l : List α) : (toFront t l).Perm l := by
  rw [toFront]
  split
  case isTrue member => exact (List.perm_cons_erase member).symm
  case isFalse => exact .refl l

theorem favouring_sorts (t : α) : Sorts (favouring t) := by
  intro less weak l
  have sorted := insertion_sorts less weak (toFront t l)
  exact ⟨sorted.perm.trans (toFront_perm t l), sorted.ordered⟩

/-- A member no other is before comes first. -/
theorem favouring_head {t : α} {l : List α} (member : t ∈ l)
    (least : ∀ a ∈ l, less a t = false) : ∃ rest, favouring t less l = t :: rest := by
  rw [favouring, toFront, if_pos member, insertion, List.insertionSort_cons]
  cases sorted : (l.erase t).insertionSort fun a b => less b a = false with
  | nil => exact ⟨[], rfl⟩
  | cons a rest =>
      have inside : a ∈ l.erase t := by
        have here : a ∈ (l.erase t).insertionSort fun a b => less b a = false := by
          rw [sorted]
          exact List.mem_cons_self
        exact (List.perm_insertionSort _ _).mem_iff.mp here
      refine ⟨a :: rest, ?_⟩
      rw [List.orderedInsert_cons, if_pos (least a (List.mem_of_mem_erase inside))]

end Favouring

end WeakOrders
