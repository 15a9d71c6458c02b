import Mathlib.Data.List.Basic

/-!
# Buffers in bump-allocated regions

A buffer is a range of one of several regions. Memory is the log of what has been
written to whole buffers: reading a buffer gives the last content written to it,
unless another write has touched a part of it since. A layout is a set of live
buffers that lie apart, below the limits the regions have been allocated up to.
-/

namespace BufferArena

variable {R C : Type} [DecidableEq R]

structure Range (R : Type) where
  region : R
  start : Nat
  size : Nat
  deriving DecidableEq, Repr

def Range.stop (r : Range R) : Nat := r.start + r.size

def Range.Overlaps (r s : Range R) : Prop :=
  r.region = s.region ∧ r.start < s.stop ∧ s.start < r.stop

instance (r s : Range R) : Decidable (r.Overlaps s) :=
  inferInstanceAs (Decidable (_ ∧ _ ∧ _))

omit [DecidableEq R] in
lemma Range.Overlaps.symm {r s : Range R} (h : r.Overlaps s) : s.Overlaps r :=
  ⟨h.1.symm, h.2.2, h.2.1⟩

abbrev Memory (R C : Type) := List (Range R × C)

def write (memory : Memory R C) (r : Range R) (content : C) : Memory R C := (r, content) :: memory

def read : Memory R C → Range R → Option C
  | [], _ => none
  | (w, content) :: older, r =>
    if w = r then some content else if w.Overlaps r then none else read older r

@[simp] theorem read_write_self (memory : Memory R C) (r : Range R) (content : C) :
    read (write memory r content) r = some content := if_pos rfl

theorem read_write_apart {memory : Memory R C} {w r : Range R} {content : C}
    (apart : ¬ w.Overlaps r) (nonempty : 0 < r.size) :
    read (write memory w content) r = read memory r := by
  have different : w ≠ r := by
    rintro rfl
    have inside : w.start < w.stop := by
      unfold Range.stop
      omega
    exact apart ⟨rfl, inside, inside⟩
  rw [write, read, if_neg different, if_neg apart]

section Layout

variable {limit limit' : R → Nat} {live : List (Range R)} {r : Range R}

/-- Live buffers lie apart from each other, below the limits. -/
structure Layout (limit : R → Nat) (live : List (Range R)) : Prop where
  apart : live.Pairwise fun r s => ¬ r.Overlaps s
  below : ∀ r ∈ live, r.stop ≤ limit r.region
  nonempty : ∀ r ∈ live, 0 < r.size

omit [DecidableEq R] in
theorem Layout.empty (limit : R → Nat) : Layout limit [] :=
  ⟨.nil, by simp, by simp⟩

omit [DecidableEq R] in
theorem Layout.grow (h : Layout limit live) (more : ∀ g, limit g ≤ limit' g) :
    Layout limit' live :=
  ⟨h.apart, fun r hr => Nat.le_trans (h.below r hr) (more _), h.nonempty⟩

omit [DecidableEq R] in
theorem Layout.sublist (h : Layout limit live) {fewer : List (Range R)}
    (sub : fewer.Sublist live) : Layout limit fewer :=
  ⟨h.apart.sublist sub, fun r hr => h.below r (sub.subset hr),
    fun r hr => h.nonempty r (sub.subset hr)⟩

omit [DecidableEq R] in
theorem Layout.perm (h : Layout limit live) {other : List (Range R)} (same : live.Perm other) :
    Layout limit other := by
  refine ⟨?_, fun r hr => h.below r (same.symm.subset hr), fun r hr =>
    h.nonempty r (same.symm.subset hr)⟩
  apply (same.pairwise_iff ?_).mp h.apart
  intro r s hrs overlap
  exact hrs overlap.symm

omit [DecidableEq R] in
/-- A buffer that starts at the limit lies apart from all live ones. -/
theorem Layout.fresh (h : Layout limit live) {s : Range R} (start : limit r.region ≤ r.start)
    (hs : s ∈ live) : ¬ r.Overlaps s := by
  rintro ⟨same, _, inside⟩
  have := h.below s hs
  rw [← same] at this
  omega

omit [DecidableEq R] in
theorem Layout.alloc (h : Layout limit live) (start : limit r.region ≤ r.start)
    (size : 0 < r.size) (more : ∀ g, limit g ≤ limit' g) (room : r.stop ≤ limit' r.region) :
    Layout limit' (r :: live) := by
  constructor
  · refine List.pairwise_cons.mpr ⟨?_, h.apart⟩
    intro s hs
    exact h.fresh start hs
  · intro s hs
    rcases List.mem_cons.mp hs with rfl | hs
    · exact room
    · exact Nat.le_trans (h.below s hs) (more _)
  · intro s hs
    rcases List.mem_cons.mp hs with rfl | hs
    · exact size
    · exact h.nonempty s hs

/-- A write to a live buffer leaves the content of the others. -/
theorem Layout.read_write (h : Layout limit (r :: live)) {s : Range R} (hs : s ∈ live)
    (memory : Memory R C) (content : C) :
    read (write memory r content) s = read memory s :=
  read_write_apart ((List.pairwise_cons.mp h.apart).1 s hs)
    (h.nonempty s (List.mem_cons_of_mem r hs))

end Layout

end BufferArena
