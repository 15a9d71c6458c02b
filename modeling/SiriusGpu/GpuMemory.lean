import SiriusGpu.ThrowingState
import Mathlib.Logic.Function.Basic
import Mathlib.Tactic.Tauto

/-!
# Buffers of a query

A pointer is a handle into the caching region or to a buffer of the processing
allocator. The allocation table names the buffers handed out and not yet freed;
locked ones and those kept for RMM outlive a free. Reading a handle that holds
nothing is a fault, which no C++ exception reports.
-/

namespace GpuMemory

open ThrowingState

section State

abbrev Bytes := List UInt8

/-- A word of a cudf validity mask. -/
abbrev MaskWord := BitVec 32

inductive Handle
  | caching (place : Nat)
  | processing (place : Nat)
  deriving DecidableEq, Repr

inductive Content
  | bytes (data : Bytes)
  | words (data : List Nat)
  | bits (data : List MaskWord)
  deriving DecidableEq, Repr

/-- `next` is a place the allocator has not handed out. -/
structure State where
  contents : Handle → Option Content
  allocationTable : List Handle
  lockedAllocationTable : List Handle
  rmmStoredBuffers : List Handle
  next : Nat

inductive Exception
  | fault
  | invalidInput (message : String)
  | notImplemented (message : String)
  | internal (message : String)
  deriving DecidableEq, Repr

abbrev Action (α : Type) := Proc State Exception α

def State.Live (s : State) (h : Handle) : Prop := s.contents h ≠ none

/-- The handles `customCudaFree` accepts. -/
def State.Known (s : State) : Handle → Prop
  | .caching _ => True
  | h => h ∈ s.allocationTable ∨ h ∈ s.lockedAllocationTable ∨ h ∈ s.rmmStoredBuffers

instance (s : State) (h : Handle) : Decidable (s.Known h) := by
  cases h <;> unfold State.Known <;> infer_instance

end State

section Operations

def Content.asBytes : Content → Option Bytes
  | .bytes data => some data
  | _ => none

def Content.asWords : Content → Option (List Nat)
  | .words data => some data
  | _ => none

def Content.asBits : Content → Option (List MaskWord)
  | .bits data => some data
  | _ => none

def State.at {α : Type} (s : State) (view : Content → Option α) (h : Handle) : Option α :=
  (s.contents h).bind view

/-- Device code that reads a buffer. -/
def load {α : Type} (view : Content → Option α) (h : Handle) : Action α := fun s =>
  match s.at view h with
  | some a => (.ok a, s)
  | none => (.error .fault, s)

def State.allocate (s : State) (content : Content) : State :=
  { s with
    contents := Function.update s.contents (.processing s.next) (some content)
    allocationTable := .processing s.next :: s.allocationTable
    next := s.next + 1 }

/-- `customCudaMalloc` in the processing region, with what a kernel writes there. -/
def customCudaMalloc (content : Content) : Action Handle := fun s =>
  (.ok (.processing s.next), s.allocate content)

def State.release (s : State) (h : Handle) : State :=
  { s with
    contents := Function.update s.contents h none
    allocationTable := s.allocationTable.filter (· ≠ h) }

/-- Handles of the caching region are left alone, and those locked or kept for RMM. -/
def customCudaFree : Option Handle → Action Unit
  | none => pure ()
  | some (.caching _) => pure ()
  | some h => fun s =>
    if h ∈ s.allocationTable then (.ok (), s.release h)
    else if h ∈ s.lockedAllocationTable ∨ h ∈ s.rmmStoredBuffers then (.ok (), s)
    else (.error (.invalidInput "Pointer not found in allocation table"), s)

def State.lock (s : State) (h : Handle) : State :=
  if h ∈ s.allocationTable then
    { s with
      allocationTable := s.allocationTable.filter (· ≠ h)
      lockedAllocationTable := h :: s.lockedAllocationTable }
  else s

def lockAllocation : Option Handle → Action Unit
  | none => pure ()
  | some h => Proc.update fun s => s.lock h

def State.store (s : State) (content : Content) : State :=
  { s with
    contents := Function.update s.contents (.processing s.next) (some content)
    rmmStoredBuffers := .processing s.next :: s.rmmStoredBuffers
    next := s.next + 1 }

/-- A buffer cudf has made, kept in `rmm_stored_buffers`. -/
def storeRmm (content : Content) : Action Handle := fun s =>
  (.ok (.processing s.next), s.store content)

end Operations

section Frames

variable {s s' s'' : State} {F G : Handle → Prop}

/-- A place the allocator has not handed out. -/
def State.New (s : State) (h : Handle) : Prop := ∃ n, s.next ≤ n ∧ h = .processing n

/-- What has not been handed out is empty and in no table; the caching region is not handed
out here. -/
structure State.Fresh (s : State) : Prop where
  empty : ∀ h, s.New h → s.contents h = none
  unknown : ∀ h, s.New h → ¬ s.Known h
  apart : ∀ n, .caching n ∉ s.allocationTable

theorem new_next (s : State) : s.New (.processing s.next) := ⟨s.next, Nat.le_refl _, rfl⟩

theorem State.Fresh.not_new (fresh : s.Fresh) {h : Handle} (live : s.Live h) : ¬ s.New h :=
  fun new => live (fresh.empty h new)

theorem State.Fresh.next_ne (fresh : s.Fresh) {h : Handle} (live : s.Live h) :
    h ≠ .processing s.next := by
  rintro rfl
  exact fresh.not_new live (new_next s)

theorem known_of_allocated {h : Handle} (allocated : h ∈ s.allocationTable) : s.Known h := by
  rcases h with n | n
  · trivial
  · exact .inl allocated

/-- Between the states handles in `F` may have been freed; all else that was live or known
stays as it was, and so do the handles in `F` that were not in the allocation table. -/
structure Keeps (s s' : State) (F : Handle → Prop) : Prop where
  contents : ∀ h, s.Live h → (F h → h ∉ s.allocationTable) → s'.contents h = s.contents h
  known : ∀ h, s.Known h → (F h → h ∉ s.allocationTable) → s'.Known h
  table : ∀ h, h ∈ s'.allocationTable → h ∈ s.allocationTable ∨ s.New h
  next : s.next ≤ s'.next
  old : s.Fresh
  fresh : s'.Fresh

theorem Keeps.refl (fresh : s.Fresh) : Keeps s s F :=
  ⟨fun _ _ _ => rfl, fun _ known _ => known, fun _ allocated => .inl allocated, Nat.le_refl _,
    fresh, fresh⟩

theorem Keeps.live (keeps : Keeps s s' F) {h : Handle} (live : s.Live h)
    (kept : F h → h ∉ s.allocationTable) : s'.Live h := by
  intro gone
  exact live ((keeps.contents h live kept).symm.trans gone)

theorem Keeps.trans (first : Keeps s s' F) (second : Keeps s' s'' G) :
    Keeps s s'' fun h => F h ∨ G h := by
  constructor
  · intro h live kept
    have kept₁ : F h → h ∉ s.allocationTable := fun hF => kept (.inl hF)
    have kept₂ : G h → h ∉ s'.allocationTable := fun hG allocated =>
      (first.table h allocated).elim (kept (.inr hG)) (first.old.not_new live)
    rw [second.contents h (first.live live kept₁) kept₂, first.contents h live kept₁]
  · intro h known kept
    have kept₂ : G h → h ∉ s'.allocationTable := fun hG allocated =>
      (first.table h allocated).elim (kept (.inr hG)) fun new => first.old.unknown h new known
    exact second.known h (first.known h known fun hF => kept (.inl hF)) kept₂
  · intro h allocated
    rcases second.table h allocated with before | ⟨n, le, rfl⟩
    · exact first.table h before
    · exact .inr ⟨n, Nat.le_trans first.next le, rfl⟩
  · exact Nat.le_trans first.next second.next
  · exact first.old
  · exact second.fresh

theorem Keeps.mono (h : Keeps s s' F) (sub : ∀ h, F h → G h) : Keeps s s' G :=
  ⟨fun g live kept => h.contents g live fun hF => kept (sub g hF),
    fun g known kept => h.known g known fun hF => kept (sub g hF), h.table, h.next, h.old, h.fresh⟩

theorem live_of_at {α : Type} {view : Content → Option α} {h : Handle} {a : α}
    (found : s.at view h = some a) : s.Live h := by
  intro gone
  simp [State.at, gone] at found

theorem Keeps.at (keeps : Keeps s s' F) {α : Type} {view : Content → Option α} {h : Handle}
    (kept : F h → h ∉ s.allocationTable) {a : α} (found : s.at view h = some a) :
    s'.at view h = some a := by
  rw [State.at, keeps.contents h (live_of_at found) kept]
  exact found

/-- A new place is filled and entered into a table. -/
theorem keeps_fill (fresh : s.Fresh) (content : Content) {s' : State}
    (contents : s'.contents = Function.update s.contents (.processing s.next) (some content))
    (known : ∀ h, s'.Known h ↔ s.Known h ∨ h = .processing s.next)
    (table : ∀ h, h ∈ s'.allocationTable → h ∈ s.allocationTable ∨ h = .processing s.next)
    (next : s'.next = s.next + 1) : Keeps s s' F := by
  constructor
  · intro h live _
    rw [contents, Function.update_of_ne (fresh.next_ne live)]
  · intro h hk _
    exact (known h).mpr (.inl hk)
  · intro h allocated
    rcases table h allocated with before | rfl
    · exact .inl before
    · exact .inr (new_next s)
  · omega
  · exact fresh
  · constructor
    · rintro h ⟨n, le, rfl⟩
      have other : Handle.processing n ≠ .processing s.next := by
        intro same
        cases same
        omega
      rw [contents, Function.update_of_ne other]
      exact fresh.empty _ ⟨n, by omega, rfl⟩
    · rintro h ⟨n, le, rfl⟩ hk
      rcases (known _).mp hk with hk | same
      · exact fresh.unknown _ ⟨n, by omega, rfl⟩ hk
      · cases same
        omega
    · intro n allocated
      rcases table _ allocated with before | same
      · exact fresh.apart n before
      · cases same

theorem keeps_allocate (fresh : s.Fresh) (content : Content) :
    Keeps s (s.allocate content) F := by
  apply keeps_fill fresh content rfl
  · rintro (n | n)
    · simp [State.Known]
    · simp only [State.Known, State.allocate, List.mem_cons]
      tauto
  · intro h allocated
    rcases List.mem_cons.mp allocated with rfl | before
    · exact .inr rfl
    · exact .inl before
  · rfl

theorem keeps_store (fresh : s.Fresh) (content : Content) : Keeps s (s.store content) F := by
  apply keeps_fill fresh content rfl
  · rintro (n | n)
    · simp [State.Known]
    · simp only [State.Known, State.store, List.mem_cons]
      tauto
  · intro h allocated
    exact .inl allocated
  · rfl

theorem keeps_release (fresh : s.Fresh) {h : Handle} (allocated : h ∈ s.allocationTable) :
    Keeps s (s.release h) (· = h) := by
  have smaller : ∀ g, (s.release h).Known g → s.Known g := by
    rintro (n | n) hk
    · trivial
    · rcases hk with hk | hk
      · exact .inl (List.mem_filter.mp hk).1
      · exact .inr hk
  constructor
  · intro g _ kept
    have other : g ≠ h := fun same => kept same (same ▸ allocated)
    exact Function.update_of_ne other _ _
  · rintro (n | n) known kept
    · trivial
    · have other : Handle.processing n ≠ h := fun same => kept same (same ▸ allocated)
      rcases known with known | known
      · exact .inl (List.mem_filter.mpr ⟨known, by simpa using other⟩)
      · exact .inr known
  · intro g hg
    exact .inl (List.mem_filter.mp hg).1
  · exact Nat.le_refl _
  · exact fresh
  · constructor
    · intro g new
      have other : g ≠ h := by
        rintro rfl
        exact fresh.unknown g new (known_of_allocated allocated)
      exact (Function.update_of_ne other _ _).trans (fresh.empty g new)
    · intro g new known
      exact fresh.unknown g new (smaller g known)
    · intro n hn
      exact fresh.apart n (List.mem_filter.mp hn).1

theorem keeps_lock (fresh : s.Fresh) (h : Handle) : Keeps s (s.lock h) F := by
  unfold State.lock
  by_cases allocated : h ∈ s.allocationTable
  · rw [if_pos allocated]
    have known : ∀ g : Handle, State.Known { s with
        allocationTable := s.allocationTable.filter (· ≠ h)
        lockedAllocationTable := h :: s.lockedAllocationTable } g ↔ s.Known g := by
      rintro (n | n)
      · exact Iff.rfl
      · simp only [State.Known, List.mem_filter, List.mem_cons, decide_eq_true_eq]
        by_cases same : Handle.processing n = h
        · subst same
          simp [allocated]
        · simp [same]
    constructor
    · exact fun _ _ _ => rfl
    · exact fun g hk _ => (known g).mpr hk
    · exact fun g hg => .inl (List.mem_filter.mp hg).1
    · exact Nat.le_refl _
    · exact fresh
    · constructor
      · exact fresh.empty
      · exact fun g new hk => fresh.unknown g new ((known g).mp hk)
      · exact fun n hn => fresh.apart n (List.mem_filter.mp hn).1
  · rw [if_neg allocated]
    exact Keeps.refl fresh

@[simp] theorem at_allocate (content : Content) {α : Type} (view : Content → Option α) :
    (s.allocate content).at view (.processing s.next) = view content := by
  simp [State.at, State.allocate]

theorem load_ok {α : Type} {view : Content → Option α} {h : Handle} {a : α}
    (found : s.at view h = some a) : load view h s = (.ok a, s) := by
  unfold load
  rw [found]

theorem customCudaMalloc_run (content : Content) :
    customCudaMalloc content s = (.ok (.processing s.next), s.allocate content) := rfl

/-- A free of a handle that is known returns. -/
theorem customCudaFree_run (fresh : s.Fresh) (ptr : Option Handle)
    (known : ∀ h ∈ ptr, s.Known h) :
    ∃ s', customCudaFree ptr s = (.ok (), s') ∧ Keeps s s' (· ∈ ptr) := by
  rcases ptr with _ | (n | n)
  · exact ⟨s, rfl, Keeps.refl fresh⟩
  · exact ⟨s, rfl, Keeps.refl fresh⟩
  · by_cases allocated : Handle.processing n ∈ s.allocationTable
    · refine ⟨s.release (.processing n), if_pos allocated, ?_⟩
      apply (keeps_release fresh allocated).mono
      rintro h rfl
      rfl
    · have kept := (known _ rfl).resolve_left allocated
      exact ⟨s, by simp only [customCudaFree, if_neg allocated, if_pos kept], Keeps.refl fresh⟩

/-- Handles that hold contents of two kinds are apart. -/
theorem apart_of_kind {α β : Type} {view : Content → Option α} {view' : Content → Option β}
    (kinds : ∀ content, view content = none ∨ view' content = none) {g h : Handle} {a : α} {b : β}
    (atG : s.at view g = some a) (atH : s.at view' h = some b) : g ≠ h := by
  rintro rfl
  cases content : s.contents g with
  | none => simp [State.at, content] at atG
  | some content' =>
    rcases kinds content' with no | no
    · simp [State.at, content, no] at atG
    · simp [State.at, content, no] at atH

theorem asBytes_asBits : ∀ content, Content.asBytes content = none ∨
    Content.asBits content = none := by
  rintro (_ | _ | _) <;> simp [Content.asBytes, Content.asBits]

theorem asWords_asBits : ∀ content, Content.asWords content = none ∨
    Content.asBits content = none := by
  rintro (_ | _ | _) <;> simp [Content.asWords, Content.asBits]

theorem asBytes_asWords : ∀ content, Content.asBytes content = none ∨
    Content.asWords content = none := by
  rintro (_ | _ | _) <;> simp [Content.asBytes, Content.asWords]

end Frames

section Stable

/-- A property of states that no allocation ends, and no free of a handle in `F`. -/
structure Within (F : Handle → Prop) (P : State → Prop) : Prop where
  allocate : ∀ s content, P s → P (s.allocate content)
  store : ∀ s content, P s → P (s.store content)
  release : ∀ s h, F h → h ∈ s.allocationTable → P s → P (s.release h)

/-- A property of states that no allocation and no free ends. -/
structure Stable (P : State → Prop) : Prop where
  allocate : ∀ s content, P s → P (s.allocate content)
  store : ∀ s content, P s → P (s.store content)
  release : ∀ s h, h ∈ s.allocationTable → P s → P (s.release h)

theorem Stable.within {P : State → Prop} (stable : Stable P) (F : Handle → Prop) : Within F P :=
  ⟨stable.allocate, stable.store, fun s h _ => stable.release s h⟩

theorem load_keeps {P : State → Prop} {α : Type} (view : Content → Option α) (h : Handle) :
    Triple P (load view h) (fun _ => P) P := by
  intro s hs
  unfold load
  cases s.at view h <;> exact hs

section Rules

variable {F : Handle → Prop} {P : State → Prop} (within : Within F P)
include within

theorem Within.customCudaMalloc (content : Content) :
    Triple P (GpuMemory.customCudaMalloc content) (fun _ => P) P :=
  fun s hs => within.allocate s content hs

theorem Within.storeRmm (content : Content) :
    Triple P (GpuMemory.storeRmm content) (fun _ => P) P :=
  fun s hs => within.store s content hs

theorem Within.customCudaFree (ptr : Option Handle) (inside : ∀ h ∈ ptr, F h) :
    Triple P (GpuMemory.customCudaFree ptr) (fun _ => P) P := by
  intro s hs
  rcases ptr with _ | (n | n)
  · exact hs
  · exact hs
  · by_cases allocated : Handle.processing n ∈ s.allocationTable
    · simp only [GpuMemory.customCudaFree, if_pos allocated]
      exact within.release s _ (inside _ rfl) allocated hs
    · by_cases kept : Handle.processing n ∈ s.lockedAllocationTable ∨
          Handle.processing n ∈ s.rmmStoredBuffers
      · simp only [GpuMemory.customCudaFree, if_neg allocated, if_pos kept]
        exact hs
      · simp only [GpuMemory.customCudaFree, if_neg allocated, if_neg kept]
        exact hs

end Rules

section Everywhere

variable {P : State → Prop} (stable : Stable P)
include stable

theorem Stable.customCudaMalloc (content : Content) :
    Triple P (GpuMemory.customCudaMalloc content) (fun _ => P) P :=
  fun s hs => stable.allocate s content hs

theorem Stable.customCudaFree (ptr : Option Handle) :
    Triple P (GpuMemory.customCudaFree ptr) (fun _ => P) P :=
  (stable.within fun _ => True).customCudaFree ptr fun _ _ => trivial

end Everywhere

theorem gone_lock (g h : Handle) {s : State}
    (gone : ¬ s.New g ∧ s.contents g = none) :
    ¬ (s.lock h).New g ∧ (s.lock h).contents g = none := by
  unfold State.lock
  split <;> exact gone

/-- What keeps all but the handles in `F` is kept so by frees of handles in `F`. -/
theorem keeps_within (s : State) (F : Handle → Prop) : Within F (Keeps s · F) where
  allocate := fun s' content keeps =>
    (keeps.trans (keeps_allocate (F := F) keeps.fresh content)).mono fun _ h => h.elim id id
  store := fun s' content keeps =>
    (keeps.trans (keeps_store (F := F) keeps.fresh content)).mono fun _ h => h.elim id id
  release := by
    intro s' h inside allocated keeps
    apply (keeps.trans (keeps_release keeps.fresh allocated)).mono
    rintro g (hg | rfl)
    · exact hg
    · exact inside

end Stable

section Freed

variable {s : State} {h : Handle}

/-- The handle is free or will be when it is freed. -/
def Doomed (h : Handle) (s : State) : Prop :=
  ¬ s.New h ∧ (h ∈ s.allocationTable ∨ s.contents h = none)

def Gone (h : Handle) (s : State) : Prop := ¬ s.New h ∧ s.contents h = none

/-- A free of the handle throws. -/
def Lost (h : Handle) (s : State) : Prop := ¬ s.New h ∧ ¬ s.Known h

theorem not_new_succ (new : ¬ s.New h) {s' : State} (next : s.next ≤ s'.next) : ¬ s'.New h := by
  rintro ⟨n, le, rfl⟩
  exact new ⟨n, Nat.le_trans next le, rfl⟩

theorem ne_next (new : ¬ s.New h) : h ≠ .processing s.next := by
  rintro rfl
  exact new (new_next s)

theorem contents_release (gone : s.contents h = none) (g : Handle) :
    (s.release g).contents h = none := by
  by_cases same : h = g
  · subst same
    exact Function.update_self _ _ _
  · exact (Function.update_of_ne same _ _).trans gone

theorem contents_fill (new : ¬ s.New h) (gone : s.contents h = none) (content : Content) :
    Function.update s.contents (.processing s.next) (some content) h = none := by
  rw [Function.update_of_ne (ne_next new)]
  exact gone

theorem gone_stable (h : Handle) : Stable (Gone h) where
  allocate := by
    rintro s content ⟨new, gone⟩
    exact ⟨not_new_succ new (Nat.le_succ _), contents_fill new gone content⟩
  store := by
    rintro s content ⟨new, gone⟩
    exact ⟨not_new_succ new (Nat.le_succ _), contents_fill new gone content⟩
  release := by
    rintro s g - ⟨new, gone⟩
    exact ⟨new, contents_release gone g⟩

theorem doomed_stable (h : Handle) : Stable (Doomed h) where
  allocate := by
    rintro s content ⟨new, doomed⟩
    refine ⟨not_new_succ new (Nat.le_succ _), ?_⟩
    rcases doomed with allocated | gone
    · exact .inl (List.mem_cons_of_mem _ allocated)
    · exact .inr (contents_fill new gone content)
  store := by
    rintro s content ⟨new, doomed⟩
    refine ⟨not_new_succ new (Nat.le_succ _), ?_⟩
    rcases doomed with allocated | gone
    · exact .inl allocated
    · exact .inr (contents_fill new gone content)
  release := by
    rintro s g - ⟨new, doomed⟩
    refine ⟨new, ?_⟩
    rcases doomed with allocated | gone
    · by_cases same : h = g
      · subst same
        exact .inr (Function.update_self _ _ _)
      · exact .inl (List.mem_filter.mpr ⟨allocated, by simpa using same⟩)
    · exact .inr (contents_release gone g)

theorem lost_stable (h : Handle) : Stable (Lost h) where
  allocate := by
    rintro s content ⟨new, lost⟩
    refine ⟨not_new_succ new (Nat.le_succ _), ?_⟩
    have other := ne_next new
    rcases h with n | n
    · exact lost
    · rintro (known | known)
      · exact lost (.inl ((List.mem_cons.mp known).resolve_left other))
      · exact lost (.inr known)
  store := by
    rintro s content ⟨new, lost⟩
    refine ⟨not_new_succ new (Nat.le_succ _), ?_⟩
    have other := ne_next new
    rcases h with n | n
    · exact lost
    · rintro (known | known | known)
      · exact lost (.inl known)
      · exact lost (.inr (.inl known))
      · exact lost (.inr (.inr ((List.mem_cons.mp known).resolve_left other)))
  release := by
    rintro s g - ⟨new, lost⟩
    refine ⟨new, ?_⟩
    rcases h with n | n
    · exact lost
    · rintro (known | known)
      · exact lost (.inl (List.mem_filter.mp known).1)
      · exact lost (.inr known)

/-- A free that returns leaves the handle without contents. -/
theorem customCudaFree_gone (n : Nat) : Triple (Doomed (.processing n))
    (customCudaFree (some (.processing n))) (fun _ => Gone (.processing n)) fun _ => True := by
  rintro s ⟨new, doomed⟩
  by_cases allocated : Handle.processing n ∈ s.allocationTable
  · simp only [customCudaFree, if_pos allocated]
    exact ⟨new, Function.update_self _ _ _⟩
  · have gone := doomed.resolve_left allocated
    by_cases kept : Handle.processing n ∈ s.lockedAllocationTable ∨
        Handle.processing n ∈ s.rmmStoredBuffers
    · simp only [customCudaFree, if_neg allocated, if_pos kept]
      exact ⟨new, gone⟩
    · simp only [customCudaFree, if_neg allocated, if_neg kept]

theorem customCudaFree_lost (h : Handle) :
    Triple (Lost h) (customCudaFree (some h)) (fun _ _ => False) fun _ => True := by
  rintro s ⟨-, lost⟩
  rcases h with n | n
  · exact lost trivial
  · have unallocated : Handle.processing n ∉ s.allocationTable := fun known => lost (.inl known)
    have unkept : ¬ (Handle.processing n ∈ s.lockedAllocationTable ∨
        Handle.processing n ∈ s.rmmStoredBuffers) := fun known => lost (.inr known)
    simp only [customCudaFree, if_neg unallocated, if_neg unkept]

end Freed

end GpuMemory
