import Mathlib.Data.List.Forall2

/-!
# A function that can fail, applied along a list

The results of `List.mapM` in `Except` and in `Option`, member by member, and of two steps.
-/

namespace FallibleMaps

variable {ε α β : Type} {f : α → Except ε β} {l : List α}

/-- Two steps succeed if both do. -/
theorem bind_ok_iff {x : Except ε α} {b : β} :
    x >>= f = .ok b ↔ ∃ a, x = .ok a ∧ f a = .ok b := by
  cases x with
  | error e =>
      constructor
      · intro run
        cases run
      · rintro ⟨a, run, -⟩
        cases run
  | ok a =>
      constructor
      · exact fun run => ⟨a, rfl, run⟩
      · rintro ⟨a', same, run⟩
        cases same
        exact run

theorem mapM_ok_iff {results : List β} :
    l.mapM f = .ok results ↔ List.Forall₂ (fun a b => f a = .ok b) l results := by
  induction l generalizing results with
  | nil =>
      rw [List.mapM_nil, List.forall₂_nil_left_iff]
      constructor
      · intro ran
        cases ran
        rfl
      · rintro rfl
        rfl
  | cons a l ih =>
      rw [List.mapM_cons, List.forall₂_cons_left_iff]
      constructor
      · intro ran
        cases head : f a with
        | error e =>
            rw [head] at ran
            cases ran
        | ok b =>
            cases tail : l.mapM f with
            | error e =>
                rw [head, tail] at ran
                cases ran
            | ok bs =>
                rw [head, tail] at ran
                cases ran
                exact ⟨b, bs, rfl, ih.mp tail, rfl⟩
      · rintro ⟨b, bs, head, tail, rfl⟩
        rw [head, ih.mpr tail]
        rfl

theorem mapM_getElem? {results : List β} (run : l.mapM f = .ok results) {i : Nat} {b : β}
    (here : results[i]? = some b) : ∃ a, l[i]? = some a ∧ f a = .ok b := by
  have each := mapM_ok_iff.mp run
  obtain ⟨inside, same⟩ := List.getElem?_eq_some_iff.mp here
  have inside' : i < l.length := by rwa [each.length_eq]
  refine ⟨l[i], List.getElem?_eq_getElem inside', ?_⟩
  have made := each.get inside' inside
  simpa only [List.get_eq_getElem, same] using made

theorem mapM_at {results : List β} (run : l.mapM f = .ok results) {i : Nat} {a : α}
    (here : l[i]? = some a) : ∃ b, results[i]? = some b ∧ f a = .ok b := by
  have each := mapM_ok_iff.mp run
  obtain ⟨inside, same⟩ := List.getElem?_eq_some_iff.mp here
  have inside' : i < results.length := by rwa [← each.length_eq]
  refine ⟨results[i], List.getElem?_eq_getElem inside', ?_⟩
  have made := each.get inside inside'
  simpa only [List.get_eq_getElem, same] using made

/-- If every member has a result of some kind, the list has. -/
theorem mapM_ok {p : α → β → Prop} (each : ∀ a ∈ l, ∃ b, f a = .ok b ∧ p a b) :
    ∃ results, l.mapM f = .ok results ∧ List.Forall₂ p l results := by
  induction l with
  | nil => exact ⟨[], rfl, .nil⟩
  | cons a l ih =>
      obtain ⟨b, head, holds⟩ := each a List.mem_cons_self
      obtain ⟨results, tail, all⟩ := ih fun a member => each a (List.mem_cons_of_mem _ member)
      refine ⟨b :: results, ?_, .cons holds all⟩
      rw [List.mapM_cons, head, tail]
      rfl

/-- A function that does not fail on the members. -/
theorem mapM_eq_map {g : α → β} (each : ∀ a ∈ l, f a = .ok (g a)) : l.mapM f = .ok (l.map g) := by
  rw [mapM_ok_iff, List.forall₂_map_right_iff]
  exact List.forall₂_same.mpr each

theorem exists_of_forall₂ {p : α → β → Prop} {results : List β}
    (all : List.Forall₂ p l results) {a : α} (member : a ∈ l) : ∃ b ∈ results, p a b := by
  induction all with
  | nil => cases member
  | cons head _ ih =>
      rcases List.mem_cons.mp member with rfl | later
      · exact ⟨_, List.mem_cons_self, head⟩
      · obtain ⟨b, inside, holds⟩ := ih later
        exact ⟨b, List.mem_cons_of_mem _ inside, holds⟩

/-- Two steps fail if one of them does. -/
theorem bind_error_iff {x : Except ε α} {e : ε} :
    x >>= f = .error e ↔ x = .error e ∨ ∃ a, x = .ok a ∧ f a = .error e := by
  cases x with
  | error e' =>
      have never : ¬ ∃ a, (.error e' : Except ε α) = .ok a ∧ f a = .error e := by
        rintro ⟨a, run, -⟩
        cases run
      rw [or_iff_left never]
      constructor
      · intro failed
        cases failed
        rfl
      · intro failed
        cases failed
        rfl
  | ok a =>
      constructor
      · exact fun run => .inr ⟨a, rfl, run⟩
      · rintro (failed | ⟨a', same, run⟩)
        · cases failed
        · cases same
          exact run

/-- Of two computations that fail alike one succeeds if the other does. -/
theorem ok_iff_of_errors {x : Except ε α} {y : Except ε β}
    (same : ∀ e, x = .error e ↔ y = .error e) : (∃ a, x = .ok a) ↔ ∃ b, y = .ok b := by
  cases x with
  | error e => rw [(same e).mp rfl]; simp
  | ok a =>
      cases y with
      | error e => cases (same e).mpr rfl
      | ok b => exact iff_of_true ⟨a, rfl⟩ ⟨b, rfl⟩

/-- Two steps do not fail in some way if neither does. -/
theorem bind_avoids {x : Except ε α} {e : ε} (first : x ≠ .error e)
    (second : ∀ a, x = .ok a → f a ≠ .error e) : x >>= f ≠ .error e := by
  intro failed
  rcases bind_error_iff.mp failed with failed | ⟨a, run, failed⟩
  · exact first failed
  · exact second a run failed

/-- The error of a list is that of the first member that fails. -/
theorem mapM_error_iff {e : ε} : l.mapM f = .error e ↔
    ∃ front a back, l = front ++ a :: back ∧ (∀ a' ∈ front, ∃ b, f a' = .ok b) ∧
      f a = .error e := by
  induction l with
  | nil =>
      refine iff_of_false nofun ?_
      rintro ⟨front, a, back, split, -⟩
      exact absurd split (by simp)
  | cons a l ih =>
      have later (b : β) : (do
          let bs ← l.mapM f
          pure (b :: bs) : Except ε (List β)) = .error e ↔ l.mapM f = .error e :=
        bind_error_iff.trans (or_iff_left fun ⟨_, _, failed⟩ => nomatch failed)
      rw [List.mapM_cons, bind_error_iff]
      constructor
      · rintro (failed | ⟨b, ran, failed⟩)
        · exact ⟨[], a, l, rfl, List.forall_mem_nil _, failed⟩
        · obtain ⟨front, a', back, rfl, before, failed⟩ := ih.mp ((later b).mp failed)
          exact ⟨a :: front, a', back, rfl, List.forall_mem_cons.mpr ⟨⟨b, ran⟩, before⟩, failed⟩
      · rintro ⟨front, a', back, split, before, failed⟩
        cases front with
        | nil =>
            cases split
            exact .inl failed
        | cons first front =>
            cases split
            obtain ⟨⟨b, ran⟩, before⟩ := List.forall_mem_cons.mp before
            exact .inr ⟨b, ran, (later b).mpr (ih.mpr ⟨front, a', back, rfl, before, failed⟩)⟩

theorem mapM_avoids {e : ε} (each : ∀ a ∈ l, f a ≠ .error e) : l.mapM f ≠ .error e := by
  intro failed
  obtain ⟨front, a, back, rfl, -, failed⟩ := mapM_error_iff.mp failed
  exact each a (by simp) failed

section Optional

variable {g : α → Option β}

theorem mapM_some_iff {results : List β} :
    l.mapM g = some results ↔ List.Forall₂ (fun a b => g a = some b) l results := by
  induction l generalizing results with
  | nil =>
      rw [List.mapM_nil, List.forall₂_nil_left_iff]
      constructor
      · intro ran
        exact (Option.some.inj ran).symm
      · rintro rfl
        rfl
  | cons a l ih =>
      rw [List.mapM_cons, List.forall₂_cons_left_iff]
      constructor
      · intro ran
        obtain ⟨b, head, ran⟩ := Option.bind_eq_some_iff.mp ran
        obtain ⟨bs, tail, ran⟩ := Option.bind_eq_some_iff.mp ran
        exact ⟨b, bs, head, ih.mp tail, (Option.some.inj ran).symm⟩
      · rintro ⟨b, bs, head, tail, rfl⟩
        rw [head, ih.mpr tail]
        rfl

/-- If every member gives a result of some kind, the list does. -/
theorem mapM_some {p : α → β → Prop} (each : ∀ a ∈ l, ∃ b, g a = some b ∧ p a b) :
    ∃ results, l.mapM g = some results ∧ List.Forall₂ p l results := by
  induction l with
  | nil => exact ⟨[], rfl, .nil⟩
  | cons a l ih =>
      obtain ⟨b, head, holds⟩ := each a List.mem_cons_self
      obtain ⟨results, tail, all⟩ := ih fun a member => each a (List.mem_cons_of_mem _ member)
      refine ⟨b :: results, ?_, .cons holds all⟩
      rw [List.mapM_cons, head, tail]
      rfl

end Optional

end FallibleMaps
