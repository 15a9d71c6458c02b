import Mathlib

/-!
# Actions on parts of a store

Partial functions on a store of cells, each of which reads and writes some cells only. Two
actions commute when neither writes a cell of the other, and a list of actions can be run in
any order that keeps the pairs which do not.
-/

namespace LocalActions

universe u

abbrev Action (K S α : Type u) := StateT (K → S) Option α

section Cells

variable {K S α : Type u}

/-- What a partial function of a cell gives. -/
def readCell (k : K) (f : S → Option α) : Action K S α := fun c => (f (c k)).map (·, c)

/-- A partial function that also changes the cell. -/
def onCell [DecidableEq K] (k : K) (f : S → Option (α × S)) : Action K S α := fun c =>
  (f (c k)).map fun x => (x.1, Function.update c k x.2)

/-- What an action gives, without the store it leaves. -/
def result (x : Action K S α) (c : K → S) : Option α := (x.run c).map Prod.fst

variable {x : Action K S α} {c c' : K → S} {a : α}

theorem readCell_run {k : K} {f : S → Option α} :
    (readCell k f).run c = some (a, c') ↔ f (c k) = some a ∧ c' = c := by
  change (f (c k)).map (·, c) = some (a, c') ↔ _
  cases f (c k) with
  | none => simp
  | some b => simp [eq_comm]

theorem onCell_run [DecidableEq K] {k : K} {f : S → Option (α × S)} :
    (onCell k f).run c = some (a, c') ↔ ∃ s, f (c k) = some (a, s) ∧
      c' = Function.update c k s := by
  change (f (c k)).map _ = some (a, c') ↔ _
  rw [Option.map_eq_some_iff]
  constructor
  · rintro ⟨⟨b, s⟩, same, heq⟩
    obtain ⟨rfl, rfl⟩ := Prod.mk.inj heq
    exact ⟨s, same, rfl⟩
  · rintro ⟨s, same, rfl⟩
    exact ⟨(a, s), same, rfl⟩

theorem run_bind_iff {β : Type u} {f : α → Action K S β} {b : β} :
    (x >>= f).run c = some (b, c') ↔
      ∃ a d, x.run c = some (a, d) ∧ (f a).run d = some (b, c') := by
  rw [StateT.run_bind]
  change (x.run c).bind (fun p => (f p.1).run p.2) = some (b, c') ↔ _
  rw [Option.bind_eq_some_iff]
  exact ⟨fun ⟨p, first, rest⟩ => ⟨p.1, p.2, first, rest⟩,
    fun ⟨a, d, first, rest⟩ => ⟨(a, d), first, rest⟩⟩

theorem run_pure_iff {b : α} : (pure a : Action K S α).run c = some (b, c') ↔
    b = a ∧ c' = c := by
  rw [StateT.run_pure]
  change some (a, c) = some (b, c') ↔ _
  simp [eq_comm]

/-- Two steps on one cell are one. -/
theorem onCell_bind [DecidableEq K] {β : Type u} {k : K} {f : S → Option (α × S)}
    {g : α → S → Option (β × S)} : (onCell k f >>= fun a => onCell k (g a)) =
      onCell k fun s => (f s).bind fun x => g x.1 x.2 := by
  refine StateT.ext fun c => Option.ext fun p => ?_
  obtain ⟨b, c'⟩ := p
  simp only [run_bind_iff, onCell_run, Option.bind_eq_some_iff]
  constructor
  · rintro ⟨a, d, ⟨s, first, rfl⟩, s', second, rfl⟩
    rw [Function.update_self] at second
    exact ⟨s', ⟨(a, s), first, second⟩, by rw [Function.update_idem]⟩
  · rintro ⟨s', ⟨⟨a, s⟩, first, second⟩, rfl⟩
    exact ⟨a, _, ⟨s, first, rfl⟩, s', by rwa [Function.update_self],
      by rw [Function.update_idem]⟩

theorem readCell_eq_onCell [DecidableEq K] {k : K} {f : S → Option α} :
    readCell k f = onCell k fun s => (f s).map (·, s) := by
  refine StateT.ext fun c => Option.ext fun p => ?_
  obtain ⟨b, c'⟩ := p
  rw [readCell_run, onCell_run]
  simp only [Option.map_eq_some_iff, Prod.mk.injEq]
  constructor
  · rintro ⟨value, rfl⟩
    exact ⟨_, ⟨b, value, rfl, rfl⟩, (Function.update_eq_self _ _).symm⟩
  · rintro ⟨s, ⟨b', value, rfl, rfl⟩, rfl⟩
    exact ⟨value, Function.update_eq_self _ _⟩

theorem pure_eq_onCell [DecidableEq K] (k : K) : (pure a : Action K S α) =
    onCell k fun s => some (a, s) := by
  refine StateT.ext fun c => ?_
  change some (a, c) = some (a, Function.update c k (c k))
  rw [Function.update_eq_self]

/-- The results of a sequence, when those of its rest are known in each store it can meet. -/
theorem result_bind {β : Type u} {f : α → Action K S β} {v : Option α} {g : α → Option β}
    (first : result x c = v)
    (rest : ∀ a c', x.run c = some (a, c') → result (f a) c' = g a) :
    result (x >>= f) c = v.bind g := by
  have split : (x >>= f).run c = (x.run c).bind fun p => (f p.1).run p.2 := rfl
  subst first
  rw [result, split, result]
  cases run : x.run c with
  | none => rfl
  | some p => exact rest p.1 p.2 run

variable {β : Type u} {k : K}

theorem result_readCell {f : S → Option α} : result (readCell k f) c = f (c k) := by
  have run : (readCell k f).run c = (f (c k)).map (·, c) := rfl
  rw [result, run]
  cases f (c k) <;> rfl

/-- A cell of the store that an action leaves. -/
theorem result_bind_readCell {f : S → Option β} :
    result (x >>= fun _ => readCell k f) c = (x.run c).bind fun p => f (p.2 k) := by
  have split : (x >>= fun _ => readCell k f).run c =
      (x.run c).bind fun p => (readCell k f).run p.2 := rfl
  rw [result, split]
  cases x.run c with
  | none => rfl
  | some p => exact result_readCell

theorem result_readCell_bind {f : S → Option α} {g : α → Action K S β} :
    result (readCell k f >>= g) c = (f (c k)).bind fun a => result (g a) c := by
  have run : (readCell k f >>= g).run c = ((f (c k)).map (·, c)).bind
      fun p => (g p.1).run p.2 := rfl
  rw [result, run]
  cases f (c k) <;> rfl

variable [DecidableEq K]

theorem result_onCell_bind {f : S → Option (α × S)} {g : α → Action K S β} :
    result (onCell k f >>= g) c = (f (c k)).bind fun x =>
      result (g x.1) (Function.update c k x.2) := by
  have run : (onCell k f >>= g).run c = ((f (c k)).map fun x =>
      (x.1, Function.update c k x.2)).bind fun p => (g p.1).run p.2 := rfl
  rw [result, run]
  cases f (c k) <;> rfl

theorem result_onCell {f : S → Option (α × S)} :
    result (onCell k f) c = (f (c k)).map Prod.fst := by
  have run : (onCell k f).run c = (f (c k)).map fun x => (x.1, Function.update c k x.2) := rfl
  rw [result, run]
  cases f (c k) <;> rfl

end Cells

section Locality

variable {K S α β γ : Type u} {uses writes uses' writes' : Set K} {x : Action K S α}
  {y : Action K S β} {c c' : K → S} {a : α}

/-- The action depends on the cells of `uses` and changes those of `writes` only. -/
structure Local (uses writes : Set K) (x : Action K S α) : Prop where
  sub : writes ⊆ uses
  agrees : ∀ c d a c', (∀ k ∈ uses, c k = d k) → x.run c = some (a, c') →
    ∃ d', x.run d = some (a, d') ∧ (∀ k ∈ writes, d' k = c' k) ∧ ∀ k ∉ writes, d' k = d k

theorem Local.frame (loc : Local uses writes x) (run : x.run c = some (a, c')) {k : K}
    (out : k ∉ writes) : c' k = c k := by
  obtain ⟨d', run', -, same⟩ := loc.agrees c c a c' (fun _ _ => rfl) run
  obtain ⟨-, rfl⟩ := Prod.mk.inj (Option.some.inj (run.symm.trans run'))
  exact same k out

theorem Local.mono (loc : Local uses writes x) (less : uses ⊆ uses') (less' : writes ⊆ writes')
    (sub : writes' ⊆ uses') : Local uses' writes' x where
  sub := sub
  agrees c d a c' same run := by
    obtain ⟨d', run', inside, outside⟩ := loc.agrees c d a c' (fun k h => same k (less h)) run
    refine ⟨d', run', fun k written => ?_, fun k out => outside k fun h => out (less' h)⟩
    by_cases here : k ∈ writes
    · exact inside k here
    · rw [outside k here, loc.frame run here, same k (sub written)]

theorem local_pure (a : α) : Local ∅ ∅ (pure a : Action K S α) where
  sub := fun _ h => h
  agrees c d b c' _ run := by
    obtain ⟨rfl, rfl⟩ := run_pure_iff.mp run
    exact ⟨d, rfl, fun _ h => h.elim, fun _ _ => rfl⟩

theorem local_readCell (k : K) (f : S → Option α) : Local {k} ∅ (readCell k f) where
  sub := Set.empty_subset _
  agrees c d a c' same run := by
    obtain ⟨value, rfl⟩ := readCell_run.mp run
    rw [same k rfl] at value
    exact ⟨d, readCell_run.mpr ⟨value, rfl⟩, fun _ h => h.elim, fun _ _ => rfl⟩

theorem local_onCell [DecidableEq K] (k : K) (f : S → Option (α × S)) :
    Local {k} {k} (onCell k f) where
  sub := fun _ h => h
  agrees c d a c' same run := by
    obtain ⟨s, value, rfl⟩ := onCell_run.mp run
    rw [same k rfl] at value
    refine ⟨_, onCell_run.mpr ⟨s, value, rfl⟩, ?_, fun k' out => ?_⟩
    · rintro k' rfl
      simp
    · exact Function.update_of_ne out _ _

theorem Local.bind {f : α → Action K S β} (loc : Local uses writes x)
    (rest : ∀ a, Local uses writes (f a)) : Local uses writes (x >>= f) where
  sub := loc.sub
  agrees c d b c' same run := by
    obtain ⟨a, c₁, first, second⟩ := run_bind_iff.mp run
    obtain ⟨d₁, first', inside, outside⟩ := loc.agrees c d a c₁ same first
    have same' : ∀ k ∈ uses, c₁ k = d₁ k := by
      intro k used
      by_cases here : k ∈ writes
      · exact (inside k here).symm
      · rw [loc.frame first here, outside k here, same k used]
    obtain ⟨d', second', inside', outside'⟩ := (rest a).agrees c₁ d₁ b c' same' second
    refine ⟨d', run_bind_iff.mpr ⟨a, d₁, first', second'⟩, inside', fun k out => ?_⟩
    rw [outside' k out, outside k out]

theorem Local.forM {ι : Type*} {act : ι → Action K S PUnit} {xs : List ι}
    (sub : writes ⊆ uses) (each : ∀ i ∈ xs, Local uses writes (act i)) :
    Local uses writes (forM xs act) := by
  induction xs with
  | nil => exact (local_pure _).mono (Set.empty_subset _) (Set.empty_subset _) sub
  | cons i xs ih =>
    rw [List.forM_cons]
    refine (each i List.mem_cons_self).bind fun _ => ?_
    exact ih fun j inside => each j (List.mem_cons_of_mem _ inside)

/-- What one action does after the other, it does before it. -/
lemma Local.before (locx : Local uses writes x) (locy : Local uses' writes' y)
    (apart : Disjoint writes uses') (apart' : Disjoint writes' uses) {b : β} {d : K → S}
    (first : x.run c = some (a, d)) (second : y.run d = some (b, c')) :
    ∃ d', y.run c = some (b, d') ∧ x.run d' = some (a, c') := by
  have same : ∀ k ∈ uses', d k = c k := fun k used =>
    locx.frame first fun written => Set.disjoint_left.mp apart written used
  obtain ⟨d', second', inside, outside⟩ := locy.agrees d c b c' same second
  have same' : ∀ k ∈ uses, c k = d' k := fun k used =>
    (outside k fun written => Set.disjoint_left.mp apart' written used).symm
  obtain ⟨e, first', inside', outside'⟩ := locx.agrees c d' a d same' first
  refine ⟨d', second', ?_⟩
  have same : e = c' := by
    funext k
    by_cases here : k ∈ writes
    · have out : k ∉ writes' := fun h => Set.disjoint_left.mp apart here (locy.sub h)
      rw [inside' k here, locy.frame second out]
    · rw [outside' k here]
      by_cases there : k ∈ writes'
      · exact inside k there
      · rw [outside k there, locy.frame second there, locx.frame first here]
  rw [first', same]

theorem Local.comm (locx : Local uses writes x) (locy : Local uses' writes' y)
    (apart : Disjoint writes uses') (apart' : Disjoint writes' uses)
    (f : α → β → Action K S γ) :
    (x >>= fun a => y >>= fun b => f a b) = y >>= fun b => x >>= fun a => f a b := by
  refine StateT.ext fun c => Option.ext fun p => ?_
  obtain ⟨v, e⟩ := p
  simp only [run_bind_iff]
  constructor
  · rintro ⟨a, d, first, b, d', second, rest⟩
    obtain ⟨e', second', first'⟩ := locx.before locy apart apart' first second
    exact ⟨b, e', second', a, d', first', rest⟩
  · rintro ⟨b, d, first, a, d', second, rest⟩
    obtain ⟨e', second', first'⟩ := locy.before locx apart' apart first second
    exact ⟨a, e', second', b, d', first', rest⟩

/-- Steps on several cells can be made cell by cell. -/
theorem forM_cells [DecidableEq K] (f g : K → S → Option (PUnit × S)) {ks : List K}
    (distinct : ks.Nodup) :
    (forM ks (fun k => onCell k (f k)) >>= fun _ => forM ks fun k => onCell k (g k)) =
      forM ks fun k => onCell k fun s => (f k s).bind fun x => g k x.2 := by
  induction ks with
  | nil => rfl
  | cons k ks ih =>
    obtain ⟨fresh, distinct⟩ := List.nodup_cons.mp distinct
    have rest : Local {x | x ∈ ks} {x | x ∈ ks} (forM ks fun k => onCell k (f k)) := by
      refine Local.forM subset_rfl fun x inside => ?_
      have here : {x} ⊆ {x | x ∈ ks} := Set.singleton_subset_iff.mpr inside
      exact (local_onCell x _).mono here here subset_rfl
    have swap := rest.comm (local_onCell k (g k)) (Set.disjoint_singleton_right.mpr fresh)
      (Set.disjoint_singleton_left.mpr fresh) fun _ _ => forM ks fun k => onCell k (g k)
    have both : (onCell k (f k) >>= fun _ => onCell k (g k)) =
        onCell k fun s => (f k s).bind fun x => g k x.2 :=
      onCell_bind (k := k) (f := f k) (g := fun _ => g k)
    simp only [List.forM_cons, bind_assoc, swap, ih distinct]
    simp only [← bind_assoc, both]

end Locality

section Order

variable {ι : Type*} {K S : Type u} {act : ι → Action K S PUnit} {uses writes : ι → Set K}

/-- Neither of two tasks writes a cell that the other uses. -/
def Independent (uses writes : ι → Set K) (i j : ι) : Prop :=
  Disjoint (writes i) (uses j) ∧ Disjoint (writes j) (uses i)

theorem comm_of_independent (local_ : ∀ i, Local (uses i) (writes i) (act i)) {i j : ι}
    (apart : Independent uses writes i j) {α : Type u} (f : Action K S α) :
    (act i >>= fun _ => act j >>= fun _ => f) = act j >>= fun _ => act i >>= fun _ => f :=
  (local_ i).comm (local_ j) apart.1 apart.2 fun _ _ => f

theorem forM_front (local_ : ∀ i, Local (uses i) (writes i) (act i)) {i : ι} {xs : List ι}
    (apart : ∀ j ∈ xs, Independent uses writes i j) (ys : List ι) :
    forM (xs ++ i :: ys) act = act i >>= fun _ => forM (xs ++ ys) act := by
  induction xs with
  | nil => rfl
  | cons j xs ih =>
    have rest := ih fun k inside => apart k (List.mem_cons_of_mem _ inside)
    calc forM ((j :: xs) ++ i :: ys) act
        = act j >>= fun _ => forM (xs ++ i :: ys) act := rfl
      _ = act j >>= fun _ => act i >>= fun _ => forM (xs ++ ys) act := by rw [rest]
      _ = act i >>= fun _ => act j >>= fun _ => forM (xs ++ ys) act :=
        (comm_of_independent local_ (apart j List.mem_cons_self) _).symm

lemma not_both_orders {i j : ι} {xs : List ι} (distinct : xs.Nodup) (before : [i, j].Sublist xs) :
    ¬ [j, i].Sublist xs := by
  intro after
  induction xs with
  | nil => cases before
  | cons k xs ih =>
    obtain ⟨fresh, distinct⟩ := List.nodup_cons.mp distinct
    rcases List.sublist_cons_iff.mp before with left | ⟨_, heq, left⟩ <;>
      rcases List.sublist_cons_iff.mp after with right | ⟨_, heq', right⟩
    · exact ih distinct left right
    · cases heq'
      exact fresh (left.subset (List.mem_cons_of_mem _ List.mem_cons_self))
    · cases heq
      exact fresh (right.subset (List.mem_cons_of_mem _ List.mem_cons_self))
    · cases heq
      cases heq'
      exact fresh (left.subset List.mem_cons_self)

lemma pair_sublist_erase [DecidableEq ι] {i j k : ι} {xs : List ι} (hj : j ≠ i) (hk : k ≠ i)
    (pair : [j, k].Sublist xs) : [j, k].Sublist (xs.erase i) := by
  have := pair.erase i
  rwa [List.erase_of_not_mem] at this
  simp [hj.symm, hk.symm]

/-- Two orders of the same tasks do the same when each pair of tasks is independent or stands
in one order in both. -/
theorem forM_perm (local_ : ∀ i, Local (uses i) (writes i) (act i)) {xs ys : List ι}
    (perm : xs.Perm ys) (distinct : xs.Nodup)
    (ordered : ∀ i ∈ xs, ∀ j ∈ xs, i ≠ j → Independent uses writes i j ∨
      [i, j].Sublist xs ∧ [i, j].Sublist ys ∨ [j, i].Sublist xs ∧ [j, i].Sublist ys) :
    forM xs act = forM ys act := by
  classical
  induction xs generalizing ys with
  | nil =>
    obtain rfl := List.nil_perm.mp perm
    rfl
  | cons i xs ih =>
    obtain ⟨fresh, distinct'⟩ := List.nodup_cons.mp distinct
    obtain ⟨l, r, rfl⟩ := List.append_of_mem (perm.subset List.mem_cons_self)
    have distinct'' := perm.nodup_iff.mp distinct
    have split := List.nodup_append.mp distinct''
    have perm' : xs.Perm (l ++ r) := (List.perm_cons i).mp (perm.trans List.perm_middle)
    have notLeft : i ∉ l := fun inside => split.2.2 i inside i List.mem_cons_self rfl
    -- what stood before the first task has to be independent of it
    have apart : ∀ j ∈ l, Independent uses writes i j := by
      intro j inside
      have other : i ≠ j := fun same => notLeft (same ▸ inside)
      have member : j ∈ i :: xs := perm.symm.subset (List.mem_append_left _ inside)
      rcases ordered i List.mem_cons_self j member other with free | ⟨-, after⟩ | ⟨before, -⟩
      · exact free
      · have both : [i, j].Sublist (l ++ [i] ++ r) := by simpa using after
        have : [j, i].Sublist (l ++ i :: r) :=
          (List.singleton_sublist.mpr inside).append
            (List.singleton_sublist.mpr List.mem_cons_self)
        exact absurd this (not_both_orders distinct'' after)
      · rcases List.sublist_cons_iff.mp before with h | ⟨_, heq, h⟩
        · exact absurd (h.subset (by simp)) fresh
        · cases heq
          exact absurd (h.subset (by simp)) fresh
    rw [forM_front local_ apart]
    change (act i >>= fun _ => forM xs act) = _
    rw [ih perm' distinct' ?_]
    intro j hj k hk other
    have notFirst (m : ι) (h : m ∈ xs) : m ≠ i := fun same => fresh (same ▸ h)
    have left : xs = (i :: xs).erase i := by simp
    have right : l ++ r = (l ++ i :: r).erase i := by
      rw [List.erase_append_right _ notLeft, List.erase_cons_head]
    have keep : ∀ m n, m ∈ xs → n ∈ xs →
        [m, n].Sublist (i :: xs) ∧ [m, n].Sublist (l ++ i :: r) →
        [m, n].Sublist xs ∧ [m, n].Sublist (l ++ r) := by
      intro m n hm hn both
      rw [left, right]
      exact ⟨pair_sublist_erase (notFirst m hm) (notFirst n hn) both.1,
        pair_sublist_erase (notFirst m hm) (notFirst n hn) both.2⟩
    exact (ordered j (List.mem_cons_of_mem _ hj) k (List.mem_cons_of_mem _ hk) other).imp_right
      (Or.imp (keep j k hj hk) (keep k j hk hj))

end Order

end LocalActions
