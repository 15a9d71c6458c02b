import Mathlib

/-!
# Concurrent caching allocations

`customCudaMalloc` for the caching region: a call adds to the pointer of the region, checks the
bound, and takes the addition back in a step of its own if it does not fit; the GPU region is
tried before the CPU region. Any number of calls take their steps in any order.
-/

namespace CachingAllocator

section Model

inductive Place
  | gpu | cpu
  deriving DecidableEq

instance : Fintype Place := ⟨{.gpu, .cpu}, fun place => by cases place <;> decide⟩

/-- The caching region, in two parts. -/
structure Caching where
  gpuCache : Nat
  cpuCache : Nat
  cacheSizePerGpu : Nat
  availableGpuCacheSize : Nat
  gpuAligned : 256 ∣ gpuCache
  cpuAligned : 256 ∣ cpuCache

def Caching.base (c : Caching) : Place → Nat
  | .gpu => c.gpuCache
  | .cpu => c.cpuCache

def Caching.size (c : Caching) : Place → Nat
  | .gpu => c.availableGpuCacheSize
  | .cpu => c.cacheSizePerGpu - c.availableGpuCacheSize

inductive Error
  | outOfCachingMemory | notAligned
  deriving DecidableEq

/-- Where a call is; a start is what its `fetch_add` returned. -/
inductive Phase
  | entering (place : Place)
  | added (place : Place) (start : Nat)
  | rejecting (place : Place)
  | served (place : Place) (start : Nat)
  | refused (error : Error)
  deriving DecidableEq

structure State where
  pointers : Place → Nat
  calls : Nat → Phase

def initial : State := ⟨fun _ => 0, fun _ => .entering .gpu⟩

/-- The bytes of a call, up to the next multiple of 256. -/
def alloc (bytes : Nat) : Nat :=
  let alloc := bytes % 2 ^ 64
  (alloc + (256 - alloc % 256)) % 2 ^ 64

def fits (c : Caching) (place : Place) (start alloc : Nat) : Bool :=
  (start + alloc) % 2 ^ 64 ≤ c.size place

/-- After the bound check. -/
def checked (c : Caching) (place : Place) (start alloc : Nat) : Phase :=
  if fits c place start alloc then
    if (c.base place + start) % 8 ≠ 0 then .refused .notAligned else .served place start
  else .rejecting place

/-- After the rollback. -/
def rejected : Place → Phase
  | .gpu => .entering .cpu
  | .cpu => .refused .outOfCachingMemory

/-- One atomic step of a call. -/
def step (c : Caching) (bytes : Nat → Nat) (id : Nat) (s : State) : State :=
  match s.calls id with
  | .entering place => {
      pointers := Function.update s.pointers place
        ((s.pointers place + alloc (bytes id)) % 2 ^ 64)
      calls := Function.update s.calls id (.added place (s.pointers place)) }
  | .added place start =>
    { s with calls := Function.update s.calls id (checked c place start (alloc (bytes id))) }
  | .rejecting place => {
      pointers := Function.update s.pointers place
        ((s.pointers place + (2 ^ 64 - alloc (bytes id))) % 2 ^ 64)
      calls := Function.update s.calls id (rejected place) }
  | .served _ _ | .refused _ => s

/-- The calls take their steps in the order given. -/
def run (c : Caching) (bytes : Nat → Nat) (schedule : List Nat) (s : State) : State :=
  schedule.foldl (fun s id => step c bytes id s) s

end Model

section Meaning

variable (c : Caching) (bytes : Nat → Nat)

def Phase.ended : Phase → Bool
  | .served _ _ | .refused _ => true
  | _ => false

/-- The calls that got a range in a part of the region. -/
def Served (s : State) (id : Nat) (place : Place) (start : Nat) : Prop :=
  s.calls id = .served place start

/-- The ranges are aligned, inside the region and apart; after all calls the pointer is at the end
of the last range. -/
structure Good (calls : Nat) (s : State) : Prop where
  aligned : ∀ id < calls, ∀ place start, Served s id place start → 256 ∣ c.base place + start
  inside : ∀ id < calls, ∀ place start, Served s id place start →
    bytes id ≤ alloc (bytes id) ∧ start + alloc (bytes id) ≤ c.size place
  apart : ∀ id < calls, ∀ id' < calls, id ≠ id' → ∀ place start start',
    Served s id place start → Served s id' place start' →
      start + alloc (bytes id) ≤ start' ∨ start' + alloc (bytes id') ≤ start
  last : (∀ id < calls, (s.calls id).ended = true) → ∀ place,
    (∀ id < calls, ∀ start, Served s id place start →
        start + alloc (bytes id) ≤ s.pointers place) ∧
      (s.pointers place = 0 ∨ ∃ id < calls, ∃ start, Served s id place start ∧
        start + alloc (bytes id) = s.pointers place)

/-- A reservation that does not fit and is not yet taken back. -/
def Phase.failing (alloc : Nat) (place : Place) : Phase → Bool
  | .added here start => here = place && !fits c here start alloc
  | .rejecting here => here = place
  | _ => false

/-- A call that enters a part does not wrap around, and does not fit while a reservation there is
failing. -/
def Orderly (calls : Nat) (s : State) (id : Nat) : Prop :=
  ∀ place, s.calls id = .entering place →
    bytes id + 256 < 2 ^ 64 ∧ s.pointers place + alloc (bytes id) < 2 ^ 64 ∧
      ((∃ id' < calls, (s.calls id').failing c (alloc (bytes id')) place = true) →
        fits c place (s.pointers place) (alloc (bytes id)) = false)

/-- All steps of a run are those of calls, and orderly. -/
def OrderlyRun (calls : Nat) : List Nat → State → Prop
  | [], _ => True
  | id :: rest, s => id < calls ∧ Orderly c bytes calls s id ∧
      OrderlyRun calls rest (step c bytes id s)

instance (calls : Nat) (s : State) (id : Nat) : Decidable (Orderly c bytes calls s id) :=
  inferInstanceAs (Decidable (∀ place, s.calls id = .entering place →
    bytes id + 256 < 2 ^ 64 ∧ s.pointers place + alloc (bytes id) < 2 ^ 64 ∧
      ((∃ id' < calls, (s.calls id').failing c (alloc (bytes id')) place = true) →
        fits c place (s.pointers place) (alloc (bytes id)) = false)))

instance decidableOrderlyRun (calls : Nat) :
    (schedule : List Nat) → (s : State) → Decidable (OrderlyRun c bytes calls schedule s)
  | [], _ => .isTrue trivial
  | id :: rest, s =>
    haveI := decidableOrderlyRun calls rest (step c bytes id s)
    inferInstanceAs (Decidable (_ ∧ _ ∧ _))

end Meaning

section Ledger

variable (c : Caching) (bytes : Nat → Nat)

/-- What the calls that satisfy a test ask for. -/
def weight (calls : Nat) (counted : Nat → Bool) : Nat :=
  ∑ i ∈ Finset.range calls, if counted i then alloc (bytes i) else 0

/-- The part of the region a call has added to. -/
def Phase.holds : Phase → Option Place
  | .added place _ | .rejecting place | .served place _ => some place
  | .entering _ | .refused _ => none

def held (calls : Nat) (s : State) (place : Place) : Nat :=
  weight bytes calls fun i => (s.calls i).holds = some place

/-- The range a call has, or will have after its check. -/
def granted (alloc : Nat) : Phase → Option (Place × Nat)
  | .added place start => if fits c place start alloc then some (place, start) else none
  | .served place start => some (place, start)
  | _ => none

def ranges (s : State) (id : Nat) : Option (Place × Nat) :=
  granted c (alloc (bytes id)) (s.calls id)

def given (calls : Nat) (ranges : Nat → Option (Place × Nat)) (place : Place) : Nat :=
  weight bytes calls fun i => (ranges i).map Prod.fst = some place

/-- Of the ranges given each lies below their sum, and one ends there. -/
structure Stacked (calls : Nat) (ranges : Nat → Option (Place × Nat)) : Prop where
  aligned : ∀ i < calls, ∀ place start, ranges i = some (place, start) →
    256 ∣ start ∧ 256 ∣ alloc (bytes i)
  inside : ∀ i < calls, ∀ place start, ranges i = some (place, start) →
    start + alloc (bytes i) ≤ c.size place
  below : ∀ i < calls, ∀ place start, ranges i = some (place, start) →
    start + alloc (bytes i) ≤ given bytes calls ranges place
  apart : ∀ i < calls, ∀ j < calls, i ≠ j → ∀ place start start',
    ranges i = some (place, start) → ranges j = some (place, start') →
      start + alloc (bytes i) ≤ start' ∨ start' + alloc (bytes j) ≤ start
  last : ∀ place, given bytes calls ranges place = 0 ∨ ∃ i < calls, ∃ start,
    ranges i = some (place, start) ∧
      start + alloc (bytes i) = given bytes calls ranges place

/-- A pointer is the sum of what the calls hold, and the ranges are stacked. -/
structure Ledger (calls : Nat) (s : State) : Prop where
  small : ∀ place, s.pointers place < 2 ^ 64
  sum : ∀ place, s.pointers place = held bytes calls s place
  wide : ∀ i < calls, (s.calls i).holds ≠ none → bytes i + 256 < 2 ^ 64
  stacked : Stacked c bytes calls (ranges c bytes s)

end Ledger

section Sums

variable {bytes : Nat → Nat} {calls id : Nat} {counted counted' : Nat → Bool}

theorem alloc_wide {n : Nat} (wide : n + 256 < 2 ^ 64) :
    n ≤ alloc n ∧ 256 ∣ alloc n ∧ alloc n < 2 ^ 64 := by
  rw [alloc]
  omega

theorem weight_step (inside : id < calls) (others : ∀ i ≠ id, counted' i = counted i) :
    weight bytes calls counted' + (if counted id then alloc (bytes id) else 0) =
      weight bytes calls counted + if counted' id then alloc (bytes id) else 0 := by
  have member := Finset.mem_range.mpr inside
  rw [weight, weight, ← Finset.add_sum_erase _ _ member, ← Finset.add_sum_erase _ _ member]
  have same : ∑ i ∈ (Finset.range calls).erase id, (if counted' i then alloc (bytes i) else 0) =
      ∑ i ∈ (Finset.range calls).erase id, if counted i then alloc (bytes i) else 0 :=
    Finset.sum_congr rfl fun i there => by rw [others i (Finset.ne_of_mem_erase there)]
  omega

theorem weight_le (less : ∀ i < calls, counted i = true → counted' i = true) :
    weight bytes calls counted ≤ weight bytes calls counted' := by
  refine Finset.sum_le_sum fun i member => ?_
  by_cases here : counted i = true
  · rw [if_pos here, if_pos (less i (Finset.mem_range.mp member) here)]
  · rw [if_neg here]
    exact Nat.zero_le _

theorem le_weight (inside : id < calls) (here : counted id = true) :
    alloc (bytes id) ≤ weight bytes calls counted := by
  have single := Finset.single_le_sum (f := fun i => if counted i then alloc (bytes i) else 0)
    (fun _ _ => Nat.zero_le _) (Finset.mem_range.mpr inside)
  rwa [if_pos here] at single

end Sums

section Steps

variable {c : Caching} {bytes : Nat → Nat} {calls id : Nat} {s : State} {place : Place}
  {phase : Phase} {pointers : Place → Nat}

theorem granted_holds {n start : Nat} (h : granted c n phase = some (place, start)) :
    phase.holds = some place := by
  cases phase <;> grind [granted, Phase.holds]

theorem given_le_held : given bytes calls (ranges c bytes s) place ≤ held bytes calls s place := by
  refine weight_le fun i _ there => ?_
  obtain ⟨⟨_, start⟩, have_range, rfl⟩ := Option.map_eq_some_iff.mp (of_decide_eq_true there)
  exact decide_eq_true (granted_holds have_range)

/-- Without failing reservations all that is held is given. -/
theorem held_le_given
    (quiet : ¬ ∃ i < calls, (s.calls i).failing c (alloc (bytes i)) place = true) :
    held bytes calls s place ≤ given bytes calls (ranges c bytes s) place := by
  refine weight_le fun i inside there => decide_eq_true ?_
  have there : (s.calls i).holds = some place := of_decide_eq_true there
  have works := fun failing => quiet ⟨i, inside, failing⟩
  rw [ranges]
  cases at_phase : s.calls i <;> grind [Phase.failing, granted, Phase.holds]

theorem Stacked.empty : Stacked c bytes calls fun _ => none := by
  refine ⟨?_, ?_, ?_, ?_, fun place => .inl ?_⟩
  · simp
  · simp
  · simp
  · simp
  · simp [given, weight]

theorem Stacked.given_aligned {ranges : Nat → Option (Place × Nat)}
    (stacked : Stacked c bytes calls ranges) : 256 ∣ given bytes calls ranges place := by
  obtain nothing | ⟨i, inside, start, here, atEnd⟩ := stacked.last place
  · rw [nothing]
    exact Nat.dvd_zero 256
  · obtain ⟨start_aligned, alloc_aligned⟩ := stacked.aligned i inside place start here
    rw [← atEnd]
    exact Nat.dvd_add start_aligned alloc_aligned

theorem given_push {ranges : Nat → Option (Place × Nat)} {at_place : Place} {start : Nat}
    (inside : id < calls) (free : ranges id = none) :
    given bytes calls (Function.update ranges id (some (at_place, start))) place =
      given bytes calls ranges place + if at_place = place then alloc (bytes id) else 0 := by
  have one := @weight_step bytes calls id (fun i => (ranges i).map Prod.fst = some place)
    (fun i => (Function.update ranges id (some (at_place, start)) i).map Prod.fst = some place)
    inside fun i other => by rw [Function.update_of_ne other]
  simpa [given, free] using one

/-- A new range that starts where the others end. -/
theorem Stacked.push {ranges : Nat → Option (Place × Nat)} (stacked : Stacked c bytes calls ranges)
    (inside : id < calls) (free : ranges id = none) (wide : bytes id + 256 < 2 ^ 64)
    (room : given bytes calls ranges place + alloc (bytes id) ≤ c.size place) :
    Stacked c bytes calls
      (Function.update ranges id (some (place, given bytes calls ranges place))) := by
  have grown : ∀ other, given bytes calls ranges other ≤ given bytes calls
      (Function.update ranges id (some (place, given bytes calls ranges place))) other :=
    fun other => by
      rw [given_push inside free]
      exact Nat.le_add_right _ _
  have top := @given_push bytes calls id place ranges place
    (given bytes calls ranges place) inside free
  rw [if_pos rfl] at top
  constructor
  case aligned =>
    intro i i_inside place' start here
    by_cases new : i = id
    · subst new
      rw [Function.update_self] at here
      cases here
      exact ⟨stacked.given_aligned, (alloc_wide wide).2.1⟩
    · rw [Function.update_of_ne new] at here
      exact stacked.aligned i i_inside place' start here
  case inside =>
    intro i i_inside place' start here
    by_cases new : i = id
    · subst new
      rw [Function.update_self] at here
      cases here
      exact room
    · rw [Function.update_of_ne new] at here
      exact stacked.inside i i_inside place' start here
  case below =>
    intro i i_inside place' start here
    by_cases new : i = id
    · subst new
      rw [Function.update_self] at here
      cases here
      exact top.ge
    · rw [Function.update_of_ne new] at here
      exact (stacked.below i i_inside place' start here).trans (grown place')
  case apart =>
    intro i i_inside j j_inside differ place' start start' here here'
    by_cases new : i = id
    · subst new
      rw [Function.update_self] at here
      rw [Function.update_of_ne (Ne.symm differ)] at here'
      cases here
      exact .inr (stacked.below j j_inside _ start' here')
    · rw [Function.update_of_ne new] at here
      by_cases new' : j = id
      · subst new'
        rw [Function.update_self] at here'
        cases here'
        exact .inl (stacked.below i i_inside _ start here)
      · rw [Function.update_of_ne new'] at here'
        exact stacked.apart i i_inside j j_inside differ place' start start' here here'
  case last =>
    intro place'
    by_cases same : place' = place
    · subst same
      exact .inr ⟨id, inside, _, Function.update_self .., top.symm⟩
    · have kept := @given_push bytes calls id place' ranges place
        (given bytes calls ranges place) inside free
      rw [if_neg (Ne.symm same), Nat.add_zero] at kept
      rw [kept]
      refine (stacked.last place').imp_right fun ⟨i, i_inside, start, here, atEnd⟩ =>
        ⟨i, i_inside, start, ?_, atEnd⟩
      have old : i ≠ id := by
        rintro rfl
        rw [free] at here
        cases here
      rw [Function.update_of_ne old]
      exact here

end Steps

section Runs

variable {c : Caching} {bytes : Nat → Nat} {calls id : Nat} {s : State} {place : Place}
  {phase : Phase} {pointers : Place → Nat}

theorem ranges_step : ranges c bytes ⟨pointers, Function.update s.calls id phase⟩ =
    Function.update (ranges c bytes s) id (granted c (alloc (bytes id)) phase) := by
  funext i
  by_cases same : i = id
  · subst same
    simp [ranges]
  · simp [ranges, Function.update_of_ne same]

theorem ranges_kept (same : granted c (alloc (bytes id)) phase = ranges c bytes s id) :
    ranges c bytes ⟨pointers, Function.update s.calls id phase⟩ = ranges c bytes s := by
  rw [ranges_step, same, Function.update_eq_self]

theorem held_step (inside : id < calls) :
    held bytes calls ⟨pointers, Function.update s.calls id phase⟩ place +
        (if (s.calls id).holds = some place then alloc (bytes id) else 0) =
      held bytes calls s place + if phase.holds = some place then alloc (bytes id) else 0 := by
  have one := @weight_step bytes calls id (fun i => (s.calls i).holds = some place)
    (fun i => (Function.update s.calls id phase i).holds = some place) inside
    fun i other => by rw [Function.update_of_ne other]
  simpa [held] using one

theorem wide_step (ledger : Ledger c bytes calls s)
    (wide : phase.holds ≠ none → bytes id + 256 < 2 ^ 64) :
    ∀ i < calls, (Function.update s.calls id phase i).holds ≠ none → bytes i + 256 < 2 ^ 64 := by
  intro i inside holding
  by_cases same : i = id
  · subst same
    rw [Function.update_self] at holding
    exact wide holding
  · rw [Function.update_of_ne same] at holding
    exact ledger.wide i inside holding

theorem Ledger.start : Ledger c bytes calls initial where
  small _ := by norm_num [initial]
  sum place := by simp [initial, held, weight, Phase.holds]
  wide i _ holding := absurd rfl holding
  stacked := .empty

/-- The addition of a call that enters a part. -/
theorem Ledger.enter (ledger : Ledger c bytes calls s) (inside : id < calls)
    (orderly : Orderly c bytes calls s id) (here : s.calls id = .entering place) :
    Ledger c bytes calls
      ⟨Function.update s.pointers place ((s.pointers place + alloc (bytes id)) % 2 ^ 64),
        Function.update s.calls id (.added place (s.pointers place))⟩ := by
  obtain ⟨wide, narrow, fails⟩ := orderly place here
  have pointer_sum := ledger.sum place
  have nothing : ranges c bytes s id = none := by simp [ranges, here, granted]
  rw [Nat.mod_eq_of_lt narrow]
  constructor
  case small =>
    intro other
    dsimp only
    by_cases same : other = place
    · subst same
      rwa [Function.update_self]
    · rw [Function.update_of_ne same]
      exact ledger.small other
  case sum =>
    intro other
    dsimp only
    have moved := @held_step bytes calls id s other (.added place (s.pointers place))
      (Function.update s.pointers place (s.pointers place + alloc (bytes id))) inside
    by_cases same : other = place
    · subst same
      simp only [here, Phase.holds, reduceCtorEq, if_false, if_true] at moved
      rw [Function.update_self]
      omega
    · simp only [here, Phase.holds, reduceCtorEq, if_false, Option.some.injEq,
        Ne.symm same] at moved
      have kept := ledger.sum other
      rw [Function.update_of_ne same]
      omega
  case wide => exact wide_step ledger fun _ => wide
  case stacked =>
    by_cases fit : fits c place (s.pointers place) (alloc (bytes id)) = true
    · -- all reservations of the part hold, so that the new range is on top of the others
      have quiet : ¬ ∃ i < calls, (s.calls i).failing c (alloc (bytes i)) place = true := by
        intro failing
        rw [fails failing] at fit
        cases fit
      have top : s.pointers place = given bytes calls (ranges c bytes s) place :=
        le_antisymm (pointer_sum.trans_le (held_le_given quiet))
          (given_le_held.trans_eq pointer_sum.symm)
      have room : s.pointers place + alloc (bytes id) ≤ c.size place := by
        rw [fits, Nat.mod_eq_of_lt narrow] at fit
        exact of_decide_eq_true fit
      rw [ranges_step, granted, if_pos fit, top]
      exact ledger.stacked.push inside nothing wide (top ▸ room)
    · have refused : granted c (alloc (bytes id)) (.added place (s.pointers place)) =
          ranges c bytes s id := by
        rw [granted, if_neg fit, nothing]
      rw [ranges_kept refused]
      exact ledger.stacked

/-- A check changes neither what is held nor what is given. -/
theorem Ledger.check (ledger : Ledger c bytes calls s) (inside : id < calls) {start : Nat}
    (here : s.calls id = .added place start) :
    Ledger c bytes calls { s with
      calls := Function.update s.calls id (checked c place start (alloc (bytes id))) } := by
  have aligned : fits c place start (alloc (bytes id)) = true →
      (c.base place + start) % 8 = 0 := fun fit => by
    have start_aligned := (ledger.stacked.aligned id inside place start
      (by rw [ranges, here, granted, if_pos fit])).1
    have base_aligned : 256 ∣ c.base place := by
      cases place
      · exact c.gpuAligned
      · exact c.cpuAligned
    omega
  have holding : (checked c place start (alloc (bytes id))).holds = some place := by
    grind [checked, Phase.holds]
  have same : granted c (alloc (bytes id)) (checked c place start (alloc (bytes id))) =
      ranges c bytes s id := by
    rw [ranges, here]
    grind [granted, checked]
  constructor
  case small => exact ledger.small
  case sum =>
    intro other
    dsimp only
    have moved := @held_step bytes calls id s other (checked c place start (alloc (bytes id)))
      s.pointers inside
    rw [holding, here, Phase.holds] at moved
    rw [ledger.sum other]
    exact (Nat.add_right_cancel moved).symm
  case wide =>
    refine wide_step ledger fun _ => ledger.wide id inside ?_
    simp [here, Phase.holds]
  case stacked =>
    rw [ranges_kept same]
    exact ledger.stacked

/-- The subtraction of a call that does not fit. -/
theorem Ledger.reject (ledger : Ledger c bytes calls s) (inside : id < calls)
    (here : s.calls id = .rejecting place) :
    Ledger c bytes calls
      ⟨Function.update s.pointers place
          ((s.pointers place + (2 ^ 64 - alloc (bytes id))) % 2 ^ 64),
        Function.update s.calls id (rejected place)⟩ := by
  have small := ledger.small place
  have wide := (alloc_wide (ledger.wide id inside (by simp [here, Phase.holds]))).2.2
  have holding : alloc (bytes id) ≤ s.pointers place := by
    rw [ledger.sum place]
    exact le_weight inside (by simp [here, Phase.holds])
  have back : (s.pointers place + (2 ^ 64 - alloc (bytes id))) % 2 ^ 64 =
      s.pointers place - alloc (bytes id) := by omega
  have released : (rejected place).holds = none := by cases place <;> rfl
  rw [back]
  constructor
  case small =>
    intro other
    dsimp only
    by_cases same : other = place
    · subst same
      rw [Function.update_self]
      omega
    · rw [Function.update_of_ne same]
      exact ledger.small other
  case sum =>
    intro other
    dsimp only
    have moved := @held_step bytes calls id s other (rejected place)
      (Function.update s.pointers place (s.pointers place - alloc (bytes id))) inside
    rw [released, here] at moved
    have sum := ledger.sum other
    by_cases same : other = place
    · subst same
      simp only [Phase.holds, reduceCtorEq, if_false, if_true] at moved
      rw [Function.update_self]
      omega
    · simp only [Phase.holds, reduceCtorEq, if_false, Option.some.injEq,
        Ne.symm same] at moved
      rw [Function.update_of_ne same]
      omega
  case wide => exact wide_step ledger fun still => absurd released still
  case stacked =>
    have same : granted c (alloc (bytes id)) (rejected place) = ranges c bytes s id := by
      rw [ranges, here]
      cases place <;> rfl
    rw [ranges_kept same]
    exact ledger.stacked

theorem Ledger.step (ledger : Ledger c bytes calls s) (inside : id < calls)
    (orderly : Orderly c bytes calls s id) : Ledger c bytes calls (step c bytes id s) := by
  rw [CachingAllocator.step]
  cases here : s.calls id with
  | entering place => exact ledger.enter inside orderly here
  | added place start => exact ledger.check inside here
  | rejecting place => exact ledger.reject inside here
  | served place start => exact ledger
  | refused error => exact ledger

theorem Ledger.run (schedule : List Nat) (ledger : Ledger c bytes calls s)
    (orderly : OrderlyRun c bytes calls schedule s) :
    Ledger c bytes calls (run c bytes schedule s) := by
  induction schedule generalizing s with
  | nil => exact ledger
  | cons id rest ih =>
    obtain ⟨inside, this_step, later⟩ := orderly
    exact ih (ledger.step inside this_step) later

theorem served_range {start : Nat} (served : Served s id place start) :
    ranges c bytes s id = some (place, start) := by
  rw [Served] at served
  rw [ranges, served, granted]

theorem range_served {start : Nat} (ended : (s.calls id).ended = true)
    (range : ranges c bytes s id = some (place, start)) : Served s id place start := by
  rw [Served]
  cases here : s.calls id <;> grind [ranges, granted, Phase.ended]

theorem Ledger.good (ledger : Ledger c bytes calls s) : Good c bytes calls s := by
  have stacked := ledger.stacked
  constructor
  case aligned =>
    intro id inside place start served
    have base_aligned : 256 ∣ c.base place := by
      cases place
      · exact c.gpuAligned
      · exact c.cpuAligned
    exact Nat.dvd_add base_aligned
      (stacked.aligned id inside place start (served_range served)).1
  case inside =>
    intro id inside place start served
    have holding : (s.calls id).holds ≠ none := by
      rw [Served] at served
      simp [served, Phase.holds]
    exact ⟨(alloc_wide (ledger.wide id inside holding)).1,
      stacked.inside id inside place start (served_range served)⟩
  case apart =>
    intro id inside id' inside' differ place start start' served served'
    exact stacked.apart id inside id' inside' differ place start start' (served_range served)
      (served_range served')
  case last =>
    intro ended place
    have quiet : ¬ ∃ i < calls, (s.calls i).failing c (alloc (bytes i)) place = true := by
      rintro ⟨i, inside, failing⟩
      have finished := ended i inside
      cases here : s.calls i <;> grind [Phase.ended, Phase.failing]
    have top : s.pointers place = given bytes calls (ranges c bytes s) place :=
      (ledger.sum place).trans (le_antisymm (held_le_given quiet) given_le_held)
    rw [top]
    refine ⟨fun id inside start served =>
      stacked.below id inside place start (served_range served), ?_⟩
    refine (stacked.last place).imp_right fun ⟨i, inside, start, range, atEnd⟩ =>
      ⟨i, inside, start, range_served (ended i inside) range, atEnd⟩

/-- In every state that orderly steps reach from the start. -/
theorem good_of_orderly (c : Caching) (bytes : Nat → Nat) (calls : Nat) (schedule : List Nat)
    (orderly : OrderlyRun c bytes calls schedule initial) :
    Good c bytes calls (run c bytes schedule initial) :=
  (Ledger.start.run schedule orderly).good

/-- The second call fits in neither part. -/
theorem one_refused : OrderlyRun ⟨0, 0, 1024, 512, by decide, by decide⟩
      (fun id => if id = 0 then 100 else 1000) 2 [0, 1, 0, 1, 1, 1, 1, 1] initial ∧
    Good ⟨0, 0, 1024, 512, by decide, by decide⟩ (fun id => if id = 0 then 100 else 1000) 2
      (run ⟨0, 0, 1024, 512, by decide, by decide⟩ (fun id => if id = 0 then 100 else 1000)
        [0, 1, 0, 1, 1, 1, 1, 1] initial) :=
  ⟨by decide +kernel, good_of_orderly _ _ _ _ (by decide +kernel)⟩

/-- The second call takes its addition back after the third got its range above it; the fourth
then gets the range of the third. -/
theorem range_given_twice : ¬ ∀ (c : Caching) (bytes : Nat → Nat) (calls : Nat)
    (schedule : List Nat), (∀ id ∈ schedule, id < calls) →
      Good c bytes calls (run c bytes schedule initial) := by
  intro good
  have twice := (good ⟨0, 0, 2560, 2560, by decide, by decide⟩
    (fun id => if id = 0 then 2816 else 768) 4 [0, 0, 1, 1, 0, 2, 2, 1, 3, 3]
    (by decide)).apart 2 (by decide) 3 (by decide) (by decide) .gpu 1024 1024
    (by unfold Served; decide +kernel) (by unfold Served; decide +kernel)
  revert twice
  decide +kernel

end Runs

end CachingAllocator
