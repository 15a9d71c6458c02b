import Mathlib

/-!
# Reductions of runs

The values under equal keys that follow one another are a run, and a parallel reduction makes one
value of each run. In which grouping it applies its operator is open, which only matters for an
operator that is not associative.
-/

namespace RunReductions

variable {κ α : Type}

/-- A value that some grouping makes of a list. -/
inductive Reduced (op : α → α → α) : List α → α → Prop where
  | single (v : α) : Reduced op [v] v
  | join {front back : List α} {v w : α} (first : Reduced op front v) (second : Reduced op back w) :
      Reduced op (front ++ back) (op v w)

/-- The values of the runs. -/
def runs [DecidableEq κ] : List (κ × α) → List (List α)
  | [] => []
  | (key, v) :: rest =>
      match rest.head?, runs rest with
      | some (key', _), run :: later =>
          if key = key' then (v :: run) :: later else [v] :: run :: later
      | _, _ => [[v]]

/-- One value of each run. -/
def Reduces [DecidableEq κ] (op : α → α → α) (items : List (κ × α)) (values : List α) : Prop :=
  List.Forall₂ (Reduced op) (runs items) values

section Reduced

variable {op : α → α → α} {l : List α} {v w : α}

theorem Reduced.ne_nil (reduced : Reduced op l v) : l ≠ [] := by
  induction reduced with
  | single v => exact List.cons_ne_nil _ _
  | join first second ih ih' => exact List.append_ne_nil_of_left_ne_nil ih _

theorem reduced_singleton : Reduced op [w] v ↔ v = w := by
  constructor
  · generalize shape : [w] = l
    intro reduced
    cases reduced with
    | single v => exact (List.cons.inj shape).1.symm
    | join first second =>
        rcases List.singleton_eq_append_iff.mp shape with ⟨none, -⟩ | ⟨-, none⟩
        · exact absurd none first.ne_nil
        · exact absurd none second.ne_nil
  · rintro rfl
    exact .single v

/-- The last step puts two groups together. -/
theorem Reduced.cases (reduced : Reduced op l v) : l = [v] ∨
    ∃ front back x y, l = front ++ back ∧ Reduced op front x ∧ Reduced op back y ∧ v = op x y := by
  cases reduced with
  | single v => exact .inl rfl
  | join first second => exact .inr ⟨_, _, _, _, rfl, first, second, rfl⟩

/-- The grouping from the left. -/
theorem reduced_foldl (v : α) (l : List α) : Reduced op (v :: l) (l.foldl op v) := by
  have grow (front : List α) (w : α) (first : Reduced op front w) (l : List α) :
      Reduced op (front ++ l) (l.foldl op w) := by
    induction l generalizing front w with
    | nil => rwa [List.append_nil]
    | cons x rest ih =>
        have next := ih (front ++ [x]) (op w x) (first.join (.single x))
        rwa [List.append_assoc, List.singleton_append] at next
  exact grow [v] v (.single v) l

end Reduced

section Runs

variable [DecidableEq κ] {key : κ} {items front back : List (κ × α)}

theorem runs_ne_nil (some : items ≠ []) : runs items ≠ [] := by
  cases items with
  | nil => exact absurd rfl some
  | cons item rest =>
      rw [runs]
      split
      · split <;> exact List.cons_ne_nil _ _
      · exact List.cons_ne_nil _ _

/-- Two lists with different keys where they meet have their runs one after the other. -/
theorem runs_append (apart : ∀ a ∈ front.getLast?, ∀ b ∈ back.head?, a.1 ≠ b.1) :
    runs (front ++ back) = runs front ++ runs back := by
  induction front with
  | nil => rfl
  | cons item rest ih =>
      cases rest with
      | nil =>
          cases back with
          | nil => rw [List.append_nil, runs, List.append_nil]
          | cons next others =>
              have differ : item.1 ≠ next.1 := apart item rfl next rfl
              rw [List.singleton_append, runs]
              cases split : runs (next :: others) with
              | nil => exact absurd split (runs_ne_nil (List.cons_ne_nil _ _))
              | cons run later => simp only [List.head?_cons, if_neg differ]; rfl
      | cons next others =>
          have later := ih fun a last => apart a (by rwa [List.getLast?_cons_cons])
          rw [List.cons_append, runs, later]
          conv_rhs => rw [runs]
          cases split : runs (next :: others) with
          | nil => exact absurd split (runs_ne_nil (List.cons_ne_nil _ _))
          | cons run more =>
              simp only [List.cons_append, List.head?_cons]
              split <;> rfl

/-- The values under one key are a run. -/
theorem runs_same {values : List α} (some : values ≠ []) :
    runs (values.map (key, ·)) = [values] := by
  induction values with
  | nil => exact absurd rfl some
  | cons v later ih =>
      cases later with
      | nil => rfl
      | cons w others =>
          rw [List.map_cons, runs, ih (List.cons_ne_nil _ _)]
          simp only [List.map_cons, List.head?_cons, if_true]

theorem runs_nonempty : ∀ run ∈ runs items, run ≠ [] := by
  induction items with
  | nil => simp [runs]
  | cons item rest ih =>
      rw [runs]
      split
      case h_1 key' v run later first shape =>
        rw [shape] at ih
        split
        · simpa using fun run member => ih run (List.mem_cons_of_mem _ member)
        · simpa using ih
      case h_2 => simp

/-- A choice of groupings is a reduction. -/
theorem reduces_map {op : α → α → α} {pick : List α → α}
    (picked : ∀ l, l ≠ [] → Reduced op l (pick l)) (items : List (κ × α)) :
    Reduces op items ((runs items).map pick) := by
  rw [Reduces, List.forall₂_map_right_iff]
  exact List.forall₂_same.mpr fun run member => picked run (runs_nonempty run member)

end Runs

section Members

variable [DecidableEq κ] {op : α → α → α} {items : List (κ × α)} {values : List α}

theorem Reduces.value (reduces : Reduces op items values) {v : α} (member : v ∈ values) :
    ∃ run ∈ runs items, Reduced op run v := by
  obtain ⟨i, inside, rfl⟩ := List.getElem_of_mem member
  have here : i < (runs items).length := by rw [reduces.length_eq]; exact inside
  exact ⟨_, List.getElem_mem here, reduces.get here inside⟩

theorem Reduces.run (reduces : Reduces op items values) {run : List α} (member : run ∈ runs items) :
    ∃ v ∈ values, Reduced op run v := by
  obtain ⟨i, inside, rfl⟩ := List.getElem_of_mem member
  have here : i < values.length := by rw [← reduces.length_eq]; exact inside
  exact ⟨_, List.getElem_mem here, reduces.get inside here⟩

end Members

/-! ## The positions under sorted keys -/

section Positions

variable [LinearOrder κ]

/-- Sorted keys begin with some equal ones. -/
theorem sorted_split {key : κ} {rest : List κ} (sorted : (key :: rest).Pairwise (· ≤ ·)) :
    ∃ more later, key :: rest = List.replicate (more + 1) key ++ later ∧
      (∀ b ∈ later, key < b) ∧ later.Pairwise (· ≤ ·) := by
  induction rest with
  | nil => exact ⟨0, [], rfl, by simp, List.Pairwise.nil⟩
  | cons other rest ih =>
      obtain ⟨least, ordered⟩ := List.pairwise_cons.mp sorted
      by_cases same : other = key
      · subst same
        obtain ⟨more, later, shape, after, tail⟩ := ih ordered
        exact ⟨more + 1, later, by rw [shape]; rfl, after, tail⟩
      · have first : key < other := lt_of_le_of_ne (least other List.mem_cons_self) (Ne.symm same)
        refine ⟨0, other :: rest, rfl, ?_, ordered⟩
        intro b member
        rcases List.mem_cons.mp member with rfl | member
        · exact first
        · exact first.trans_le (List.rel_of_pairwise_cons ordered member)

/-- A sorted key stands after the smaller ones and before the greater ones. -/
theorem sorted_positions {key : κ} {keys : List κ} (sorted : keys.Pairwise (· ≤ ·))
    (member : key ∈ keys) : ∃ front more back,
      keys = front ++ List.replicate (more + 1) key ++ back ∧
      (∀ a ∈ front, a < key) ∧ ∀ b ∈ back, key < b := by
  induction keys with
  | nil => cases member
  | cons first rest ih =>
      by_cases same : first = key
      · subst same
        obtain ⟨more, later, shape, after, -⟩ := sorted_split sorted
        exact ⟨[], more, later, shape, by simp, after⟩
      · obtain ⟨least, ordered⟩ := List.pairwise_cons.mp sorted
        have later := List.mem_of_ne_of_mem (Ne.symm same) member
        obtain ⟨front, more, back, shape, below, above⟩ := ih ordered later
        refine ⟨first :: front, more, back, by rw [shape]; rfl, ?_, above⟩
        intro a inside
        rcases List.mem_cons.mp inside with rfl | inside
        · exact lt_of_le_of_ne (least key later) same
        · exact below a inside

omit [LinearOrder κ] in
theorem zipIdx_replicate (key : κ) (n start : Nat) :
    (List.replicate n key).zipIdx start = (List.range' start n).map (key, ·) := by
  induction n generalizing start with
  | zero => rfl
  | succ n ih => rw [List.replicate_succ, List.zipIdx_cons, ih, List.range'_succ, List.map_cons]

/-- The positions of a key lie between those of smaller and of greater ones. -/
theorem runs_split {key : κ} {front back : List κ} (below : ∀ a ∈ front, a < key)
    (above : ∀ b ∈ back, key < b) (more start : Nat) :
    runs ((front ++ List.replicate (more + 1) key ++ back).zipIdx start) =
      runs (front.zipIdx start) ++ List.range' (start + front.length) (more + 1) ::
        runs (back.zipIdx (start + (front.length + (more + 1)))) := by
  have keyOf {keys : List κ} {start : Nat} {item : κ × Nat} (member : item ∈ keys.zipIdx start) :
      item.1 ∈ keys := List.fst_mem_of_mem_zipIdx member
  rw [List.zipIdx_append, List.zipIdx_append, zipIdx_replicate, List.length_append,
    List.length_replicate, runs_append, runs_append, runs_same (by simp), List.append_assoc,
    List.singleton_append]
  · intro a last b first
    obtain ⟨place, -, rfl⟩ := List.mem_map.mp (List.mem_of_mem_head? first)
    exact ne_of_lt (below a.1 (keyOf (List.mem_of_mem_getLast? last)))
  · intro a last b first
    have greater := above b.1 (keyOf (List.mem_of_mem_head? first))
    rcases List.mem_append.mp (List.mem_of_mem_getLast? last) with early | here
    · exact ne_of_lt ((below a.1 (keyOf early)).trans greater)
    · obtain ⟨place, -, rfl⟩ := List.mem_map.mp here
      exact ne_of_lt greater

/-- The runs of sorted keys are the positions of each key. -/
theorem mem_runs {keys : List κ} (sorted : keys.Pairwise (· ≤ ·)) {start : Nat} {run : List Nat} :
    run ∈ runs (keys.zipIdx start) ↔ ∃ front key more back,
      keys = front ++ List.replicate (more + 1) key ++ back ∧ (∀ a ∈ front, a < key) ∧
        (∀ b ∈ back, key < b) ∧ run = List.range' (start + front.length) (more + 1) := by
  constructor
  · intro member
    induction length : keys.length using Nat.strongRecOn generalizing keys start with
    | ind n ih =>
      cases keys with
      | nil => cases member
      | cons key rest =>
          obtain ⟨more, later, shape, after, tail⟩ := sorted_split sorted
          have first := runs_split (List.forall_mem_nil (· < key)) after more start
          rw [List.nil_append, ← shape] at first
          rw [first] at member
          rcases List.mem_cons.mp member with rfl | member
          · exact ⟨[], key, more, later, shape, by simp, after, rfl⟩
          · have shorter : later.length < n := by
              rw [← length, shape, List.length_append, List.length_replicate]
              omega
            obtain ⟨front, key', more', back, split, below, above, rfl⟩ :=
              ih _ shorter tail member rfl
            refine ⟨List.replicate (more + 1) key ++ front, key', more', back, ?_, ?_, above, ?_⟩
            · simp only [shape, split, List.append_assoc]
            · intro a inside
              rcases List.mem_append.mp inside with first | inside
              · rw [List.eq_of_mem_replicate first]
                exact after key' (by rw [split]; simp)
              · exact below a inside
            · rw [List.length_append, List.length_replicate, List.length_nil, Nat.zero_add,
                Nat.add_assoc]
  · rintro ⟨front, key, more, back, rfl, below, above, rfl⟩
    rw [runs_split below above]
    exact List.mem_append_right _ List.mem_cons_self

end Positions

end RunReductions
