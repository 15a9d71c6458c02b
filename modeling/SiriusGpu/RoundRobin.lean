import Mathlib.Data.List.Perm.Basic
import Mathlib.Data.List.Nodup
import Mathlib.Logic.Function.Iterate

/-!
# Round-robin scheduling of dependent tasks

A cursor walks around a fixed list of tasks from its back. A task is emitted
when its turn comes, its head is not emitted yet and everything it needs is.
Nothing here fixes what a task is: any list that admits one order meeting all
needs is emitted completely, within a quadratic number of visits.
-/

namespace RoundRobin

universe u v w

variable {N : Type w} {O : Type u} {K : Type v}

/-- What tasks need and emit. Emitted items have identities, one of them the task's own. -/
structure Tasks (N : Type w) (O : Type u) (K : Type v) where
  head : N → K
  needs : N → List K
  emits : N → List O
  ident : O → K

/-- What the loop carries: the output, the number of emitted tasks, the cursor. -/
structure State (O : Type u) where
  out : List O
  count : Nat
  cursor : Nat

section Loop

variable [DecidableEq K] (T : Tasks N O K)

def Emitted (out : List O) (k : K) : Prop := k ∈ out.map T.ident

instance (out : List O) (k : K) : Decidable (Emitted T out k) :=
  inferInstanceAs (Decidable (k ∈ out.map T.ident))

def Due (out : List O) (t : N) : Prop :=
  ¬ Emitted T out (T.head t) ∧ ∀ k ∈ T.needs t, Emitted T out k

instance (out : List O) (t : N) : Decidable (Due T out t) :=
  inferInstanceAs (Decidable (_ ∧ _))

def visit (tasks : List N) (s : State O) : State O :=
  match tasks[tasks.length - 1 - s.cursor]? with
  | none => s
  | some t =>
    if Due T s.out t then
      ⟨s.out ++ T.emits t, s.count + 1, (s.cursor + 1) % tasks.length⟩
    else ⟨s.out, s.count, (s.cursor + 1) % tasks.length⟩

def loop (tasks : List N) : Nat → State O → Option (State O)
  | 0, s => if s.count < tasks.length then none else some s
  | fuel + 1, s =>
    if s.count < tasks.length then loop tasks fuel (visit T tasks s) else some s

/-- Every task of the list finds what it needs emitted before it. -/
def ReadyOrder : List K → List N → Prop
  | _, [] => True
  | done, t :: ts => T.needs t ⊆ done ∧ ReadyOrder (done ++ (T.emits t).map T.ident) ts

end Loop

section ReadyOrder

variable {T : Tasks N O K}

theorem ReadyOrder.mono {done done' : List K} {ts : List N}
    (sub : done ⊆ done') (h : ReadyOrder T done ts) : ReadyOrder T done' ts := by
  induction ts generalizing done done' with
  | nil => trivial
  | cons t ts ih =>
    refine ⟨fun k hk => sub (h.1 hk), ih ?_ h.2⟩
    intro k hk
    rcases List.mem_append.mp hk with hk | hk
    · exact List.mem_append_left _ (sub hk)
    · exact List.mem_append_right _ hk

theorem readyOrder_append {done : List K} {xs ys : List N} :
    ReadyOrder T done (xs ++ ys) ↔ ReadyOrder T done xs ∧
      ReadyOrder T (done ++ (xs.flatMap T.emits).map T.ident) ys := by
  induction xs generalizing done with
  | nil => simp [ReadyOrder]
  | cons t ts ih =>
    simp only [List.cons_append, ReadyOrder, ih, List.flatMap_cons, List.map_append,
      List.append_assoc, and_assoc]

theorem ReadyOrder.snoc {done : List K} {xs : List N} {t : N}
    (h : ReadyOrder T done xs)
    (needs : T.needs t ⊆ done ++ (xs.flatMap T.emits).map T.ident) :
    ReadyOrder T done (xs ++ [t]) :=
  readyOrder_append.mpr ⟨h, needs, trivial⟩

/-- A need of a listed task is emitted by a task that stands before it. -/
theorem ReadyOrder.need_before {done : List K} {pre post : List N} {t : N}
    (h : ReadyOrder T done (pre ++ t :: post)) {k : K} (hk : k ∈ (T.needs t)) :
    k ∈ done ∨ ∃ s ∈ pre, k ∈ (T.emits s).map T.ident := by
  have hneed := (readyOrder_append.mp h).2.1 hk
  rcases List.mem_append.mp hneed with hd | he
  · exact Or.inl hd
  · obtain ⟨o, ho, hid⟩ := List.mem_map.mp he
    obtain ⟨s, hs, hos⟩ := List.mem_flatMap.mp ho
    exact Or.inr ⟨s, hs, List.mem_map.mpr ⟨o, hos, hid⟩⟩

end ReadyOrder

section Valid

variable {T : Tasks N O K}

/-- Heads are emitted by their own task, and no identity is emitted by two tasks. -/
structure WellKeyed (T : Tasks N O K) (tasks : List N) : Prop where
  head_emitted : ∀ t ∈ tasks, T.head t ∈ (T.emits t).map T.ident
  separate : ∀ t ∈ tasks, ∀ s ∈ tasks, ∀ k, k ∈ (T.emits t).map T.ident →
    k ∈ (T.emits s).map T.ident → t = s
  nodup : tasks.Nodup

/-- The reachable states: the output is a ready order of `count` of the tasks. -/
structure Valid (T : Tasks N O K) (tasks : List N) (s : State O) : Prop where
  emitted : ∃ sched : List N, sched.Nodup ∧ sched ⊆ tasks ∧
    s.out = sched.flatMap T.emits ∧ s.count = sched.length ∧ ReadyOrder T [] sched
  cursor : s.cursor < tasks.length

theorem emitted_head_iff {tasks sched : List N} (keyed : WellKeyed T tasks)
    (sub : sched ⊆ tasks) {t : N} (ht : t ∈ tasks) :
    Emitted T (sched.flatMap T.emits) (T.head t) ↔ t ∈ sched := by
  unfold Emitted
  constructor
  · intro h
    obtain ⟨o, ho, hid⟩ := List.mem_map.mp h
    obtain ⟨s, hs, hos⟩ := List.mem_flatMap.mp ho
    have same := keyed.separate t ht s (sub hs) (T.head t) (keyed.head_emitted t ht)
      (List.mem_map.mpr ⟨o, hos, hid⟩)
    rwa [same]
  · intro h
    obtain ⟨o, ho, hid⟩ := List.mem_map.mp (keyed.head_emitted t ht)
    exact List.mem_map.mpr ⟨o, List.mem_flatMap.mpr ⟨t, h, ho⟩, hid⟩

theorem valid_initial {tasks : List N} (nonempty : 0 < tasks.length) :
    Valid T tasks ⟨[], 0, 0⟩ :=
  ⟨⟨[], List.nodup_nil, by simp, rfl, rfl, trivial⟩, nonempty⟩

/-- While some ready order exists, the first of its tasks not emitted yet is due. -/
theorem exists_due {tasks order sched : List N} (keyed : WellKeyed T tasks)
    (perm : order.Perm tasks) (ready : ReadyOrder T [] order)
    (sub : sched ⊆ tasks) (short : sched.length < tasks.length) :
    ∃ t ∈ tasks, Due T (sched.flatMap T.emits) t := by
  classical
  have hmissing : ∃ t ∈ order, t ∉ sched := by
    by_contra hall
    push Not at hall
    have hsub : order ⊆ sched := hall
    have hle := (List.subperm_of_subset (perm.nodup_iff.mpr keyed.nodup) hsub).length_le
    have := perm.length_eq
    omega
  obtain ⟨t, pre, post, rfl, ht, hpre⟩ :
      ∃ t pre post, order = pre ++ t :: post ∧ t ∉ sched ∧ ∀ s ∈ pre, s ∈ sched := by
    clear perm ready short
    induction order with
    | nil => simp at hmissing
    | cons a as ih =>
      by_cases ha : a ∈ sched
      · have : ∃ t ∈ as, t ∉ sched := by
          obtain ⟨t, ht, hs⟩ := hmissing
          rcases List.mem_cons.mp ht with rfl | ht
          · exact absurd ha hs
          · exact ⟨t, ht, hs⟩
        obtain ⟨t, pre, post, rfl, ht, hpre⟩ := ih this
        refine ⟨t, a :: pre, post, rfl, ht, ?_⟩
        intro s hs
        rcases List.mem_cons.mp hs with rfl | hs
        · exact ha
        · exact hpre s hs
      · exact ⟨a, [], as, rfl, ha, by simp⟩
  have hmem : t ∈ tasks := perm.subset (by simp)
  refine ⟨t, hmem, fun h => ht ((emitted_head_iff keyed sub hmem).mp h), ?_⟩
  intro k hk
  rcases ready.need_before hk with hd | ⟨s, hs, hks⟩
  · simp at hd
  · obtain ⟨o, ho, hid⟩ := List.mem_map.mp hks
    exact List.mem_map.mpr ⟨o, List.mem_flatMap.mpr ⟨s, hpre s hs, ho⟩, hid⟩

theorem exists_turn {tasks : List N} {s : State O} (h : s.cursor < tasks.length) :
    ∃ t ∈ tasks, tasks[tasks.length - 1 - s.cursor]? = some t := by
  have hlt : tasks.length - 1 - s.cursor < tasks.length := by omega
  exact ⟨tasks[tasks.length - 1 - s.cursor], List.getElem_mem hlt, List.getElem?_eq_getElem hlt⟩

end Valid

section Progress

variable [DecidableEq K] {T : Tasks N O K}

theorem visit_eq {tasks : List N} {s : State O} {t : N}
    (turn : tasks[tasks.length - 1 - s.cursor]? = some t) :
    visit T tasks s =
      if Due T s.out t then
        ⟨s.out ++ (T.emits t), s.count + 1, (s.cursor + 1) % tasks.length⟩
      else ⟨s.out, s.count, (s.cursor + 1) % tasks.length⟩ := by
  simp only [visit, turn]

theorem visit_valid {tasks : List N} (keyed : WellKeyed T tasks)
    {s : State O} (valid : Valid T tasks s) : Valid T tasks (visit T tasks s) := by
  obtain ⟨⟨sched, nodup, sub, hout, hcount, ready⟩, hcur⟩ := valid
  have hmod : (s.cursor + 1) % tasks.length < tasks.length := Nat.mod_lt _ (by omega)
  obtain ⟨t, hmem, turn⟩ := exists_turn hcur
  rw [visit_eq turn]
  split
  · rename_i due
    have fresh : t ∉ sched := by
      intro h
      exact due.1 (hout ▸ (emitted_head_iff keyed sub hmem).mpr h)
    refine ⟨⟨sched ++ [t], ?_, ?_, ?_, ?_, ?_⟩, hmod⟩
    · exact List.nodup_append.mpr ⟨nodup, List.nodup_singleton t, by
        rintro a ha b hb rfl
        exact fresh (List.mem_singleton.mp hb ▸ ha)⟩
    · intro a ha
      rcases List.mem_append.mp ha with ha | ha
      · exact sub ha
      · exact List.mem_singleton.mp ha ▸ hmem
    · simp [hout]
    · simp [hcount]
    · refine ready.snoc ?_
      intro k hk
      have := due.2 k hk
      rwa [Emitted, hout] at this
  · exact ⟨⟨sched, nodup, sub, hout, hcount, ready⟩, hmod⟩

theorem visit_mono (T : Tasks N O K) (tasks : List N) (s : State O) :
    s.count ≤ (visit T tasks s).count := by
  unfold visit
  split
  · exact Nat.le_refl _
  · split
    · exact Nat.le_succ _
    · exact Nat.le_refl _

/-- A visit that does not count leaves the output alone. -/
theorem visit_idle (tasks : List N) (s : State O)
    (idle : (visit T tasks s).count = s.count) : (visit T tasks s).out = s.out := by
  unfold visit at idle ⊢
  split at idle
  · rfl
  · split at idle
    · simp at idle
    · rename_i hdue
      rw [if_neg hdue]

theorem iterate_valid {tasks : List N} (keyed : WellKeyed T tasks)
    {s : State O} (valid : Valid T tasks s) (n : Nat) :
    Valid T tasks ((visit T tasks)^[n] s) := by
  induction n with
  | zero => exact valid
  | succ n ih =>
    rw [Function.iterate_succ_apply']
    exact visit_valid keyed ih

theorem iterate_mono (T : Tasks N O K) (tasks : List N) (s : State O) (n : Nat) :
    s.count ≤ ((visit T tasks)^[n] s).count := by
  induction n with
  | zero => exact Nat.le_refl _
  | succ n ih =>
    rw [Function.iterate_succ_apply']
    exact Nat.le_trans ih (visit_mono T tasks _)

theorem iterate_idle (tasks : List N) (s : State O) (n : Nat)
    (idle : ((visit T tasks)^[n] s).count = s.count) :
    ((visit T tasks)^[n] s).out = s.out := by
  induction n with
  | zero => rfl
  | succ n ih =>
    rw [Function.iterate_succ_apply'] at idle ⊢
    have before := iterate_mono T tasks s n
    have after := visit_mono T tasks ((visit T tasks)^[n] s)
    rw [visit_idle tasks _ (by omega), ih (by omega)]

theorem visit_cursor {tasks : List N} {s : State O} (h : s.cursor < tasks.length) :
    (visit T tasks s).cursor = (s.cursor + 1) % tasks.length := by
  obtain ⟨t, _, turn⟩ := exists_turn h
  rw [visit_eq turn]
  split <;> rfl

theorem iterate_cursor {tasks : List N} {s : State O} (h : s.cursor < tasks.length)
    (n : Nat) : ((visit T tasks)^[n] s).cursor = (s.cursor + n) % tasks.length := by
  induction n with
  | zero => exact (Nat.mod_eq_of_lt h).symm
  | succ n ih =>
    rw [Function.iterate_succ_apply', visit_cursor, ih, Nat.mod_add_mod, Nat.add_assoc]
    rw [ih]
    exact Nat.mod_lt _ (by omega)

/-- One sweep of the cursor over all tasks emits at least one more. -/
theorem sweep_progress {tasks order : List N} (keyed : WellKeyed T tasks)
    (perm : order.Perm tasks) (ready : ReadyOrder T [] order) {s : State O}
    (valid : Valid T tasks s) (short : s.count < tasks.length) :
    s.count < ((visit T tasks)^[tasks.length] s).count := by
  by_contra hstill
  have hcur := valid.cursor
  -- no visit of the sweep counts, so each of them sees the same output
  have quiet : ∀ n ≤ tasks.length, ((visit T tasks)^[n] s).count = s.count := by
    intro n hn
    have lower := iterate_mono T tasks s n
    have upper := iterate_mono T tasks ((visit T tasks)^[n] s)
      (tasks.length - n)
    rw [← Function.iterate_add_apply, Nat.sub_add_cancel hn] at upper
    omega
  obtain ⟨sched, _, sub, hout, hcount, _⟩ := valid.emitted
  obtain ⟨t, hmem, due⟩ := exists_due keyed perm ready sub (by omega)
  rw [← hout] at due
  obtain ⟨i, hi, hget⟩ := List.mem_iff_getElem.mp hmem
  -- the sweep puts the cursor on the due task once
  have hturn : ∃ n < tasks.length, (s.cursor + n) % tasks.length = tasks.length - 1 - i := by
    by_cases h : s.cursor ≤ tasks.length - 1 - i
    · refine ⟨tasks.length - 1 - i - s.cursor, by omega, ?_⟩
      rw [Nat.add_sub_cancel' h]
      exact Nat.mod_eq_of_lt (by omega)
    · refine ⟨tasks.length - s.cursor + (tasks.length - 1 - i), by omega, ?_⟩
      have split : s.cursor + (tasks.length - s.cursor + (tasks.length - 1 - i)) =
          (tasks.length - 1 - i) + tasks.length := by omega
      rw [split, Nat.add_mod_right]
      exact Nat.mod_eq_of_lt (by omega)
  obtain ⟨n, hn, hturn⟩ := hturn
  have hbefore := quiet n (by omega)
  have hafter := quiet (n + 1) (by omega)
  have hsame := iterate_idle tasks s n hbefore
  have hback : tasks.length - 1 - (tasks.length - 1 - i) = i := by omega
  have turn : tasks[tasks.length - 1 - ((visit T tasks)^[n] s).cursor]? = some t := by
    rw [iterate_cursor hcur n, hturn, hback, List.getElem?_eq_getElem hi, hget]
  rw [Function.iterate_succ_apply', visit_eq turn, hsame, if_pos due] at hafter
  simp only at hafter
  omega

theorem sweeps_progress {tasks order : List N} (keyed : WellKeyed T tasks)
    (perm : order.Perm tasks) (ready : ReadyOrder T [] order) {s : State O}
    (valid : Valid T tasks s) (n : Nat) (hn : n ≤ tasks.length) :
    n ≤ ((visit T tasks)^[n * tasks.length] s).count := by
  induction n with
  | zero => exact Nat.zero_le _
  | succ n ih =>
    have hprev := ih (by omega)
    have hvalid := iterate_valid keyed valid (n * tasks.length)
    rw [Nat.succ_mul, Nat.add_comm (n * tasks.length), Function.iterate_add_apply]
    by_cases h : ((visit T tasks)^[n * tasks.length] s).count < tasks.length
    · have := sweep_progress keyed perm ready hvalid h
      omega
    · have := iterate_mono T tasks ((visit T tasks)^[n * tasks.length] s)
        tasks.length
      omega

theorem loop_returns {tasks : List N} (s : State O) (fuel : Nat)
    (enough : tasks.length ≤ ((visit T tasks)^[fuel] s).count) :
    ∃ n, loop T tasks fuel s = some ((visit T tasks)^[n] s) ∧
      tasks.length ≤ ((visit T tasks)^[n] s).count := by
  induction fuel generalizing s with
  | zero =>
    refine ⟨0, ?_, enough⟩
    exact if_neg (by simpa using enough)
  | succ fuel ih =>
    by_cases h : s.count < tasks.length
    · obtain ⟨n, hloop, hn⟩ := ih (visit T tasks s)
        (by simpa only [Function.iterate_succ_apply] using enough)
      refine ⟨n + 1, ?_, by simpa only [Function.iterate_succ_apply] using hn⟩
      rw [loop, if_pos h, hloop, Function.iterate_succ_apply]
    · exact ⟨0, if_neg h, by simpa using h⟩

/-- The loop ends, having emitted each task once and in a ready order. -/
theorem loop_complete {tasks order : List N} (keyed : WellKeyed T tasks)
    (perm : order.Perm tasks) (ready : ReadyOrder T [] order) :
    ∃ s sched, loop T tasks (tasks.length * tasks.length) ⟨[], 0, 0⟩ = some s ∧
      sched.Perm tasks ∧ s.out = sched.flatMap T.emits ∧ ReadyOrder T [] sched := by
  by_cases hzero : tasks.length = 0
  · obtain rfl := List.length_eq_zero_iff.mp hzero
    exact ⟨⟨[], 0, 0⟩, [], rfl, List.Perm.refl _, rfl, trivial⟩
  · have valid : Valid T tasks ⟨[], 0, 0⟩ := valid_initial (by omega)
    have enough := sweeps_progress keyed perm ready valid tasks.length (Nat.le_refl _)
    obtain ⟨n, hloop, hn⟩ := loop_returns _ _ enough
    obtain ⟨sched, nodup, sub, hout, hcount, hready⟩ := (iterate_valid keyed valid n).emitted
    have hsubperm := List.subperm_of_subset nodup sub
    exact ⟨_, sched, hloop, hsubperm.perm_of_length_le (by omega), hout, hready⟩

end Progress

section Output

variable {T : Tasks N O K}

theorem emits_sublist {sched : List N} {t : N} (ht : t ∈ sched) :
    (T.emits t).Sublist (sched.flatMap T.emits) := by
  obtain ⟨pre, post, rfl⟩ := List.append_of_mem ht
  rw [List.flatMap_append, List.flatMap_cons]
  exact (List.sublist_append_left _ _).trans (List.sublist_append_right _ _)

/-- Whatever a task needs stands before everything it emits. -/
theorem ReadyOrder.need_emitted {sched : List N} (ready : ReadyOrder T [] sched) {t : N}
    (ht : t ∈ sched) {k : K} (hk : k ∈ T.needs t) {b : O} (hb : b ∈ T.emits t) :
    ∃ s ∈ sched, (∃ a ∈ T.emits s, T.ident a = k) ∧
      ∀ a ∈ T.emits s, [a, b].Sublist (sched.flatMap T.emits) := by
  obtain ⟨pre, post, rfl⟩ := List.append_of_mem ht
  rcases ready.need_before hk with impossible | ⟨s, hs, hid⟩
  · cases impossible
  · refine ⟨s, List.mem_append_left _ hs, List.mem_map.mp hid, ?_⟩
    intro a ha
    have before : [a].Sublist (pre.flatMap T.emits) :=
      List.singleton_sublist.mpr (List.mem_flatMap.mpr ⟨s, hs, ha⟩)
    have after : [b].Sublist ((t :: post).flatMap T.emits) :=
      List.singleton_sublist.mpr (List.mem_flatMap.mpr ⟨t, List.mem_cons_self, hb⟩)
    rw [List.flatMap_append]
    exact before.append after

/-- What a needed task emits comes before what the task that needs it emits. -/
theorem ReadyOrder.emits_before {tasks sched : List N} (keyed : WellKeyed T tasks)
    (sub : sched ⊆ tasks) (ready : ReadyOrder T [] sched) {s t : N} (hs : s ∈ tasks)
    (ht : t ∈ sched) (needed : T.head s ∈ T.needs t) {a b : O} (ha : a ∈ T.emits s)
    (hb : b ∈ T.emits t) : [a, b].Sublist (sched.flatMap T.emits) := by
  obtain ⟨s', hs', hid, before⟩ := ready.need_emitted ht needed hb
  have same : s = s' := keyed.separate s hs s' (sub hs') _ (keyed.head_emitted s hs)
    (List.mem_map.mpr hid)
  exact before a (same ▸ ha)

end Output

end RoundRobin
