import SiriusGpu.PipelinePaths

/-!
# Lifetime of the hash tables of joins

Each hash join owns a pointer to its table. The sink of the build side sets it,
probes read through it, and it is handed to the buffer manager to be freed by
the last user: `Execute` for INNER, SEMI and MARK joins, `GetData` for the joins
whose table is scanned. A run of a schedule may end with an exception anywhere, and
between these uses all other code takes memory from the same pool and frees it.
-/

namespace HashTableLifetime

open PhysicalPlan PipelineBuild PipelineGrowth PipelineOrder PipelineReaders PipelineSchedule
  RoundRobin

section Model

inductive Pointer
  | uninitialized
  | nullptr
  | block (n : Nat)
  deriving DecidableEq, Repr

/-- What the operators do to the `gpu_hash_table` of a join; `throw` always throws. -/
inductive Instruction
  | build (join : Operator)
  | read (join : Operator)
  | free (join : Operator)
  | throw
  deriving DecidableEq, Repr

/-- The types of hash joins whose `Execute` frees the table. -/
def freesInExecute : JoinType → Bool
  | .inner | .semi | .mark => true
  | _ => false

def getData (op : Operator) : List Instruction :=
  match op.type with
  | .join (.hashJoin .right) | .join (.hashJoin .rightSemi) | .join (.hashJoin .rightAnti) =>
    [.read op, .free op]
  | .join (.hashJoin _) => [.throw]
  | .join (.nestedLoopJoin .right) | .join (.nestedLoopJoin .outer) => []
  | .join (.nestedLoopJoin _) => [.throw]
  | _ => []

def execute (op : Operator) : List Instruction :=
  match op.type with
  -- the inner join probes a table of its own that cudf builds from the keys
  | .join (.hashJoin .inner) => [.free op]
  | .join (.hashJoin .semi) | .join (.hashJoin .mark) => [.read op, .free op]
  | .join (.hashJoin .right) | .join (.hashJoin .rightSemi) | .join (.hashJoin .rightAnti)
  | .join (.hashJoin .anti) => [.read op]
  | .join (.hashJoin _) => [.throw]
  | .join (.nestedLoopJoin .inner) => []
  | .join (.nestedLoopJoin _) => [.throw]
  | _ => []

def joinSink (id : OpId) (kind : JoinKind) : List Instruction :=
  match kind with
  | .hashJoin .inner | .hashJoin .semi | .hashJoin .mark
  | .hashJoin .right | .hashJoin .rightSemi | .hashJoin .rightAnti => [.build ⟨id, .join kind⟩]
  | .hashJoin _ => [.throw]
  | .nestedLoopJoin _ => []

def sink (op : Operator) : List Instruction :=
  match op.type with
  | .join kind => joinSink op.id kind
  | .rightDelimJoin _ join kind => joinSink join kind
  | _ => []

/-- The body of the executor's loop for one pipeline. -/
def runPipeline (p : Pipeline) : List Instruction :=
  p.source.toList.flatMap getData ++ (p.operators.flatMap execute ++ p.sink.toList.flatMap sink)

/-- The pointers of the joins, and the addresses in the allocation table. -/
structure Memory where
  table : Operator → Pointer
  allocationTable : Finset Nat

def Memory.set (m : Memory) (join : Operator) (pointer : Pointer) : Memory :=
  { m with table := Function.update m.table join pointer }

/-- The pool hands out an address that is not in use; it may have been used before. -/
def Memory.customCudaMalloc (m : Memory) (n : Nat) : Memory :=
  { m with allocationTable := insert n m.allocationTable }

/-- An address that the allocation table does not have is ignored, or the call throws. -/
def Memory.customCudaFree (m : Memory) : Pointer → Memory
  | .block n => { m with allocationTable := m.allocationTable.erase n }
  | _ => m

/-- `release` is a `customCudaFree` of any other code. -/
inductive Event
  | build (join : Operator) (pointer : Pointer)
  | read (join : Operator) (pointer : Pointer)
  | free (join : Operator) (pointer : Pointer)
  | release (n : Nat)
  deriving DecidableEq, Repr

def Event.freed : Event → Option Pointer
  | .free _ pointer => some pointer
  | .release n => some (.block n)
  | _ => none

/-- No table is allocated for an empty build side, and a null pointer is not freed. -/
inductive Step : Memory → Instruction → Memory → List Event → Prop
  | buildEmpty (m join) : Step m (.build join) (m.set join .nullptr) [.build join .nullptr]
  | build (m join n) (unused : n ∉ m.allocationTable) : Step m (.build join)
      ((m.customCudaMalloc n).set join (.block n)) [.build join (.block n)]
  | read (m join) : Step m (.read join) m [.read join (m.table join)]
  | freeNull {m join} (null : m.table join = .nullptr) : Step m (.free join) m []
  | free {m join} (some : m.table join ≠ .nullptr) :
    Step m (.free join) (m.customCudaFree (m.table join)) [.free join (m.table join)]

/-- A run may stop before any instruction. Before any instruction other code may take any
address that is not in use, and may hand any address it has kept to `customCudaFree`. -/
inductive Run : Memory → List Instruction → List Event → Prop
  | stop (m is) : Run m is []
  | malloc {m is trace} (n) (unused : n ∉ m.allocationTable)
    (rest : Run (m.customCudaMalloc n) is trace) : Run m is trace
  | release {m is trace} (n) (rest : Run (m.customCudaFree (.block n)) is trace) :
    Run m is (.release n :: trace)
  | step {m i m' events is trace} (first : Step m i m' events) (rest : Run m' is trace) :
    Run m (i :: is) (events ++ trace)

def initial : Memory := ⟨fun _ => .uninitialized, ∅⟩

/-- The join has built a table at this address that nobody has freed since. -/
def Alive (past : List Event) (join : Operator) (pointer : Pointer) : Prop :=
  ∃ pre post, past = pre ++ .build join pointer :: post ∧ ∀ e ∈ post, e.freed ≠ some pointer

/-- Whenever a join reads or frees a table, the table has been built and not been freed since. -/
structure Lifetimes (trace : List Event) : Prop where
  read : ∀ pre join pointer post, trace = pre ++ .read join pointer :: post →
    Alive pre join pointer
  freed : ∀ pre join pointer post, trace = pre ++ .free join pointer :: post →
    Alive pre join pointer

/-- No other code frees a block while it is a table. -/
def Spared (trace : List Event) : Prop :=
  ∀ pre n post, trace = pre ++ .release n :: post → ∀ join, ¬ Alive pre join (.block n)

end Model

section Ledger

variable {executed is : List Instruction} {past trace : List Event} {m m' : Memory}
  {join : Operator} {pointer : Pointer} {e : Event}

/-- Up to the first throw every use of a table comes after a build, and no use comes after a
free but that of a `shared` join. -/
def Ordered (shared : Operator → Prop) (is : List Instruction) : Prop :=
  ∀ pre i post join, is = pre ++ i :: post → .throw ∉ pre → i = .read join ∨ i = .free join →
    .build join ∈ pre ∧ (.free join ∈ pre → shared join)

/-- What is known of the tables after the instructions executed so far: tables that are not
freed are in the allocation table, at different addresses. -/
structure Ledger (executed : List Instruction) (past : List Event) (m : Memory) : Prop where
  recorded : ∀ join, .build join ∈ executed → .build join (m.table join) ∈ past
  current : ∀ join, .build join ∈ executed → (.free join ∈ executed → m.table join = .nullptr) →
    Alive past join (m.table join)
  allocated : ∀ join pointer, Alive past join pointer →
    pointer = .nullptr ∨ ∃ n ∈ m.allocationTable, pointer = .block n
  owner : ∀ join join' n, Alive past join (.block n) → Alive past join' (.block n) → join = join'
  sound : Lifetimes past

lemma ledger_initial : Ledger [] [] initial := by
  have dead : ∀ join pointer, ¬ Alive [] join pointer := by
    rintro join pointer ⟨pre, post, heq, _⟩
    cases pre <;> cases heq
  constructor
  · intro join h
    cases h
  · intro join h
    cases h
  · intro join pointer h
    exact False.elim (dead join pointer h)
  · intro join join' n h
    exact False.elim (dead join _ h)
  · exact ⟨by simp, by simp⟩

/-- An event at the end of a trace splits off at the last position or before it. -/
lemma split_snoc {pre post : List Event} {event : Event}
    (h : past ++ [e] = pre ++ event :: post) :
    (∃ post', post = post' ++ [e] ∧ past = pre ++ event :: post') ∨
      (post = [] ∧ past = pre ∧ e = event) := by
  rcases List.eq_nil_or_concat post with rfl | ⟨post', last, rfl⟩
  · obtain ⟨rfl, he⟩ := List.append_inj' h rfl
    exact Or.inr ⟨rfl, rfl, (List.cons.inj he).1⟩
  · rw [List.concat_eq_append, ← List.cons_append, ← List.append_assoc] at h
    obtain ⟨rfl, he⟩ := List.append_inj' h rfl
    obtain rfl := (List.cons.inj he).1
    exact Or.inl ⟨post', List.concat_eq_append, rfl⟩

lemma alive_snoc : Alive (past ++ [e]) join pointer ↔
    e = .build join pointer ∨ Alive past join pointer ∧ e.freed ≠ some pointer := by
  constructor
  · rintro ⟨pre, post, heq, kept⟩
    rcases split_snoc heq with ⟨post', rfl, rfl⟩ | ⟨_, _, rfl⟩
    · refine Or.inr ⟨⟨pre, post', rfl, ?_⟩, kept e (by simp)⟩
      intro e' he'
      exact kept e' (List.mem_append_left _ he')
    · exact Or.inl rfl
  · rintro (rfl | ⟨⟨pre, post, rfl, kept⟩, spared⟩)
    · exact ⟨past, [], rfl, by simp⟩
    · refine ⟨pre, post ++ [e], by simp, ?_⟩
      intro e' he'
      rcases List.mem_append.mp he' with he' | he'
      · exact kept e' he'
      · obtain rfl := List.mem_singleton.mp he'
        exact spared

/-- A trace stays sound when one event is added that is sound after it. -/
lemma Lifetimes.snoc (h : Lifetimes past)
    (use : ∀ join pointer, e = .read join pointer ∨ e = .free join pointer →
      Alive past join pointer) : Lifetimes (past ++ [e]) := by
  constructor
  · intro pre join pointer post heq
    rcases split_snoc heq with ⟨post', _, h'⟩ | ⟨_, rfl, h'⟩
    · exact h.read pre join pointer post' h'
    · exact use join pointer (Or.inl h')
  · intro pre join pointer post heq
    rcases split_snoc heq with ⟨post', _, h'⟩ | ⟨_, rfl, h'⟩
    · exact h.freed pre join pointer post' h'
    · exact use join pointer (Or.inr h')

/-- Other code takes addresses at which there is no table. -/
lemma Ledger.malloc (h : Ledger executed past m) (n : Nat) :
    Ledger executed past (m.customCudaMalloc n) := by
  refine ⟨h.recorded, h.current, ?_, h.owner, h.sound⟩
  intro join pointer alive
  rcases h.allocated join pointer alive with null | ⟨k, hk, heq⟩
  · exact Or.inl null
  · exact Or.inr ⟨k, Finset.mem_insert_of_mem hk, heq⟩

/-- An address leaves the allocation table at which no table is left. -/
lemma Ledger.allocated_free (h : Ledger executed past m) (freed : e.freed = some pointer)
    (noBuild : ∀ join pointer, e ≠ .build join pointer) (join : Operator) (pointer' : Pointer)
    (alive : Alive (past ++ [e]) join pointer') :
    pointer' = .nullptr ∨
      ∃ n ∈ (m.customCudaFree pointer).allocationTable, pointer' = .block n := by
  obtain ⟨alive, other⟩ := (alive_snoc.mp alive).resolve_left (noBuild join pointer')
  rcases h.allocated join pointer' alive with null | ⟨k, hk, rfl⟩
  · exact Or.inl null
  · refine Or.inr ⟨k, ?_, rfl⟩
    cases pointer with
    | block n =>
      refine Finset.mem_erase.mpr ⟨?_, hk⟩
      rintro rfl
      exact other freed
    | _ => exact hk

lemma Ledger.owner_snoc (h : Ledger executed past m)
    (noBuild : ∀ join pointer, e ≠ .build join pointer) (j j' : Operator) (n : Nat)
    (hj : Alive (past ++ [e]) j (.block n)) (hj' : Alive (past ++ [e]) j' (.block n)) : j = j' :=
  h.owner j j' n ((alive_snoc.mp hj).resolve_left (noBuild j _)).1
    ((alive_snoc.mp hj').resolve_left (noBuild j' _)).1

/-- Other code frees an address at which there is no table. -/
lemma Ledger.release (h : Ledger executed past m) {n : Nat}
    (spared : ∀ join, ¬ Alive past join (.block n)) :
    Ledger executed (past ++ [.release n]) (m.customCudaFree (.block n)) := by
  have noBuild : ∀ join pointer, Event.release n ≠ .build join pointer := by
    intro join pointer heq
    cases heq
  constructor
  · intro join built
    exact List.mem_append_left _ (h.recorded join built)
  · intro join built freed
    have alive : Alive past join (m.table join) := h.current join built freed
    refine alive_snoc.mpr (Or.inr ⟨alive, ?_⟩)
    intro heq
    have heq : Pointer.block n = m.table join := Option.some.inj heq
    exact spared join (by rwa [← heq] at alive)
  · exact h.allocated_free rfl noBuild
  · exact h.owner_snoc noBuild
  · apply h.sound.snoc
    rintro join pointer (heq | heq) <;> cases heq

/-- The table is built at an address where no other table is. -/
lemma Ledger.built (h : Ledger executed past m) {allocated : Finset Nat}
    (more : m.allocationTable ⊆ allocated)
    (unused : pointer = .nullptr ∨
      ∃ n ∈ allocated, n ∉ m.allocationTable ∧ pointer = .block n) :
    Ledger (executed ++ [.build join]) (past ++ [.build join pointer])
      ⟨Function.update m.table join pointer, allocated⟩ := by
  have cases_alive : ∀ {j q}, Alive (past ++ [.build join pointer]) j q →
      (j = join ∧ q = pointer) ∨ Alive past j q := by
    intro j q alive
    rcases alive_snoc.mp alive with heq | ⟨alive, _⟩
    · obtain ⟨rfl, rfl⟩ := Event.build.inj heq
      exact Or.inl ⟨rfl, rfl⟩
    · exact Or.inr alive
  have fresh : ∀ n, pointer = .block n → ∀ j, ¬ Alive past j (.block n) := by
    intro n hn j alive
    rcases h.allocated j _ alive with null | ⟨k, hk, heq⟩
    · cases null
    · rcases unused with null | ⟨l, _, hl, heq'⟩
      · rw [null] at hn
        cases hn
      · obtain rfl := Pointer.block.inj heq
        obtain rfl := Pointer.block.inj (hn.symm.trans heq')
        exact hl hk
  constructor
  · intro j built
    by_cases same : j = join
    · subst same
      simp
    · have built : Instruction.build j ∈ executed := by
        simpa [same] using built
      simp [same, h.recorded j built]
  · intro j built freed
    by_cases same : j = join
    · subst same
      simp only [Function.update_self]
      exact alive_snoc.mpr (Or.inl rfl)
    · simp only [List.mem_append, List.mem_singleton, Instruction.build.injEq, same, or_false,
        reduceCtorEq, Function.update_of_ne same] at built freed ⊢
      refine alive_snoc.mpr (Or.inr ⟨h.current j built freed, ?_⟩)
      intro heq
      cases heq
  · intro j q alive
    rcases cases_alive alive with ⟨rfl, rfl⟩ | alive
    · refine unused.imp_right ?_
      rintro ⟨n, hn, _, heq⟩
      exact ⟨n, hn, heq⟩
    · refine (h.allocated j q alive).imp_right ?_
      rintro ⟨n, hn, heq⟩
      exact ⟨n, more hn, heq⟩
  · intro j j' n hj hj'
    rcases cases_alive hj with ⟨hj, hn⟩ | old <;> rcases cases_alive hj' with ⟨hj', hn'⟩ | old'
    · exact hj.trans hj'.symm
    · exact False.elim (fresh n hn.symm j' old')
    · exact False.elim (fresh n hn'.symm j old)
    · exact h.owner j j' n old old'
  · apply h.sound.snoc
    rintro join pointer (heq | heq) <;> cases heq

/-- The table is freed, and no other join's table was at its address. -/
lemma Ledger.free (h : Ledger executed past m) (some : m.table join ≠ .nullptr)
    (alive : Alive past join (m.table join)) :
    Ledger (executed ++ [.free join]) (past ++ [.free join (m.table join)])
      (m.customCudaFree (m.table join)) := by
  have noBuild : ∀ j q, Event.free join (m.table join) ≠ .build j q := by
    intro j q heq
    cases heq
  have same : ∀ pointer, (m.customCudaFree pointer).table = m.table := by
    intro pointer
    cases pointer <;> rfl
  constructor
  · intro j built
    rw [same]
    exact List.mem_append_left _ (h.recorded j (by simpa using built))
  · intro j built freed
    rw [same] at freed ⊢
    have built : Instruction.build j ∈ executed := by
      simpa using built
    have aliveJ := h.current j built fun hfree => freed (List.mem_append_left _ hfree)
    refine alive_snoc.mpr (Or.inr ⟨aliveJ, ?_⟩)
    intro heq
    have heq : m.table join = m.table j := Option.some.inj heq
    obtain null | ⟨n, _, hn⟩ := h.allocated join _ alive
    · exact some null
    · rw [← heq, hn] at aliveJ
      rw [hn] at alive
      obtain rfl := h.owner join j n alive aliveJ
      exact some (freed (by simp))
  · exact h.allocated_free rfl noBuild
  · exact h.owner_snoc noBuild
  · apply h.sound.snoc
    rintro j q (heq | heq)
    · cases heq
    · obtain ⟨rfl, rfl⟩ := Event.free.inj heq
      exact alive

theorem Ledger.step (h : Ledger executed past m) {i : Instruction} {events : List Event}
    (step : Step m i m' events)
    (use : ∀ join, i = .read join ∨ i = .free join → .build join ∈ executed ∧
      (.free join ∈ executed → m.table join = .nullptr)) :
    Ledger (executed ++ [i]) (past ++ events) m' := by
  cases step with
  | buildEmpty join => exact h.built Finset.Subset.rfl (Or.inl rfl)
  | build join n unused =>
    exact h.built (Finset.subset_insert n _)
      (Or.inr ⟨n, Finset.mem_insert_self n _, unused, rfl⟩)
  | read join =>
    obtain ⟨built, freed⟩ := use join (Or.inl rfl)
    have noBuild : ∀ j q, Event.read join (m.table join) ≠ .build j q := by
      intro j q heq
      cases heq
    constructor
    · intro j built
      exact List.mem_append_left _ (h.recorded j (by simpa using built))
    · intro j built freed
      have alive := h.current j (by simpa using built) fun hfree => freed (by simpa using hfree)
      exact alive_snoc.mpr (Or.inr ⟨alive, by simp [Event.freed]⟩)
    · intro j q alive
      exact h.allocated j q ((alive_snoc.mp alive).resolve_left (noBuild j q)).1
    · exact h.owner_snoc noBuild
    · apply h.sound.snoc
      rintro j q (heq | heq)
      · obtain ⟨rfl, rfl⟩ := Event.read.inj heq
        exact h.current _ built freed
      · cases heq
  | @freeNull join null =>
    rw [List.append_nil]
    refine ⟨?_, ?_, h.allocated, h.owner, h.sound⟩
    · intro j built
      exact h.recorded j (by simpa using built)
    · intro j built freed
      refine h.current j (by simpa using built) ?_
      intro hfree
      exact freed (List.mem_append_left _ hfree)
  | @free join some =>
    obtain ⟨built, freed⟩ := use join (Or.inr rfl)
    exact h.free some (h.current join built freed)

theorem Ledger.run {shared : Operator → Prop} (h : Ledger executed past m)
    (ordered : Ordered shared (executed ++ is)) (noThrow : .throw ∉ executed)
    (run : Run m is trace)
    (empty : ∀ join, shared join → ∀ pointer, .build join pointer ∈ past ++ trace →
      pointer = .nullptr)
    (spared : Spared (past ++ trace)) : Lifetimes (past ++ trace) := by
  induction run generalizing executed past with
  | stop =>
    rw [List.append_nil]
    exact h.sound
  | malloc n _ _ ih => exact ih (h.malloc n) ordered noThrow empty spared
  | @release m is trace n rest ih =>
    rw [List.append_cons] at empty spared ⊢
    refine ih (h.release ?_) ordered noThrow empty spared
    exact spared past n trace (List.append_cons _ _ _).symm
  | @step m i m' events is trace first rest ih =>
    have next := h.step first (by
      intro join use
      obtain ⟨built, freed⟩ := ordered executed i is join rfl noThrow use
      refine ⟨built, ?_⟩
      intro hfree
      exact empty join (freed hfree) _ (List.mem_append_left _ (h.recorded join built)))
    rw [← List.append_assoc] at empty spared ⊢
    refine ih next ?_ ?_ empty spared
    · rwa [List.append_assoc]
    · intro hmem
      rcases List.mem_append.mp hmem with hmem | hmem
      · exact noThrow hmem
      · obtain rfl := List.mem_singleton.mp hmem
        cases first

end Ledger

section Pipeline

variable {op join : Operator} {i : Instruction}

def isUse (join : Operator) (i : Instruction) : Bool :=
  decide (i = .read join) || decide (i = .free join)

/-- A list of uses that ends with the free, if there is one. -/
def FreeLast (join : Operator) (is : List Instruction) : Prop :=
  is = [] ∨ is = [.read join] ∨ is = [.free join] ∨ is = [.read join, .free join]

lemma filter_getData (join op : Operator) :
    ((getData op).filter (isUse join) = [] ∨ op = join) ∧
      FreeLast join ((getData op).filter (isUse join)) := by
  have apart : ∀ {a b : Operator}, a ≠ b → [Instruction.read a, .free a].filter (isUse b) = [] := by
    intro a b h
    simp [isUse, h]
  unfold getData FreeLast
  split <;> by_cases same : op = join <;> simp [same, apart, isUse]

lemma filter_execute (join op : Operator) :
    ((execute op).filter (isUse join) = [] ∨ op = join) ∧
      FreeLast join ((execute op).filter (isUse join)) := by
  unfold execute FreeLast
  split <;> by_cases same : op = join <;> simp [same, isUse]

lemma filter_sink (join op : Operator) : (sink op).filter (isUse join) = [] := by
  unfold sink joinSink
  split <;> (try split) <;> simp [isUse]

lemma filter_executes (join : Operator) {ops : List Operator} (distinct : ops.Nodup) :
    ((ops.flatMap execute).filter (isUse join) = [] ∨ join ∈ ops) ∧
      FreeLast join ((ops.flatMap execute).filter (isUse join)) := by
  induction ops with
  | nil => exact ⟨Or.inl rfl, Or.inl rfl⟩
  | cons op ops ih =>
    obtain ⟨fresh, distinct⟩ := List.nodup_cons.mp distinct
    obtain ⟨none, last⟩ := ih distinct
    obtain ⟨own, lastOwn⟩ := filter_execute join op
    rw [List.flatMap_cons, List.filter_append]
    rcases own with own | rfl
    · rw [own, List.nil_append]
      exact ⟨none.imp_right (List.mem_cons_of_mem op), last⟩
    · have rest : (ops.flatMap execute).filter (isUse op) = [] := none.resolve_right fresh
      rw [rest, List.append_nil]
      exact ⟨Or.inr List.mem_cons_self, lastOwn⟩

/-- A pipeline runs each operator once, and does not run the join it scans. -/
lemma filter_runPipeline {p : Pipeline} (distinct : p.operators.Nodup)
    (apart : ∀ op, p.source = some op → getData op = [] ∨ op ∉ p.operators) :
    FreeLast join ((runPipeline p).filter (isUse join)) := by
  have sinks : (p.sink.toList.flatMap sink).filter (isUse join) = [] := by
    cases p.sink with
    | none => rfl
    | some op => simpa using filter_sink join op
  obtain ⟨none, last⟩ := filter_executes join distinct
  rw [runPipeline, List.filter_append, List.filter_append, sinks, List.append_nil]
  cases hsource : p.source with
  | none => exact last
  | some op =>
    obtain ⟨own, lastOwn⟩ := filter_getData join op
    rw [Option.toList_some, List.flatMap_singleton]
    rcases own with own | rfl
    · rwa [own, List.nil_append]
    · rcases apart op hsource with nothing | notRun
      · rwa [nothing, List.filter_nil, List.nil_append]
      · rwa [none.resolve_right notRun, List.append_nil]

lemma FreeLast.split {is pre post : List Instruction} (h : FreeLast join (is.filter (isUse join)))
    (split : is = pre ++ i :: post) (use : i = .read join ∨ i = .free join) :
    .free join ∉ pre := by
  intro hmem
  have hi : isUse join i = true := by
    rcases use with rfl | rfl <;> simp [isUse]
  have hfree : Instruction.free join ∈ pre.filter (isUse join) :=
    List.mem_filter.mpr ⟨hmem, by simp [isUse]⟩
  rw [split, List.filter_append, List.filter_cons_of_pos hi] at h
  generalize pre.filter (isUse join) = xs at h hfree
  rcases xs with _ | ⟨x, _ | ⟨y, xs⟩⟩
  · cases hfree
  · obtain rfl := List.mem_singleton.mp hfree
    rcases h with h | h | h | h <;> simp at h
  · rcases h with h | h | h | h <;> simp at h

lemma mem_runPipeline {p : Pipeline} (h : i ∈ runPipeline p)
    (use : i = .read join ∨ i = .free join) :
    (p.source = some join ∧ i ∈ getData join) ∨ join ∈ p.operators ∧ i ∈ execute join := by
  have hi : isUse join i = true := by
    rcases use with rfl | rfl <;> simp [isUse]
  rcases List.mem_append.mp h with h | h
  · obtain ⟨op, hop, hmem⟩ := List.mem_flatMap.mp h
    have hmem' := List.mem_filter.mpr ⟨hmem, hi⟩
    rcases (filter_getData join op).1 with none | rfl
    · rw [none] at hmem'
      cases hmem'
    · exact Or.inl ⟨Option.mem_toList.mp hop, hmem⟩
  · rcases List.mem_append.mp h with h | h
    · obtain ⟨op, hop, hmem⟩ := List.mem_flatMap.mp h
      have hmem' := List.mem_filter.mpr ⟨hmem, hi⟩
      rcases (filter_execute join op).1 with none | rfl
      · rw [none] at hmem'
        cases hmem'
      · exact Or.inr ⟨hop, hmem⟩
    · obtain ⟨op, hop, hmem⟩ := List.mem_flatMap.mp h
      have hmem' := List.mem_filter.mpr ⟨hmem, hi⟩
      rw [filter_sink] at hmem'
      cases hmem'

end Pipeline

section Schedule

variable {plan : Plan} {metas : List MetaPipeline} {fuel : Nat} {scheduled : List Pipeline}

def freesTable (op : Operator) : Bool :=
  match op.type with
  | .join (.hashJoin joinType) => freesInExecute joinType
  | _ => false

def scansTable (op : Operator) : Bool :=
  match op.type with
  | .join (.hashJoin joinType) => scansHashTable joinType
  | _ => false

/-- The joins that free their table in `Execute` and stand above a scanned join. -/
def sharedIn : List Operator → List Operator
  | [] => []
  | op :: rest =>
    if freesTable op && rest.any scansTable then op :: sharedIn rest else sharedIn rest

/-- The joins of a plan that are shared by a pipeline and a child pipeline of it. -/
def sharedJoins (plan : Plan) : List Operator :=
  plan.feeds.flatMap fun feed => sharedIn feed.2.spine

lemma mem_sharedIn {above rest : List Operator} {upper lower : Operator} (mem : upper ∈ above)
    (frees : freesTable upper = true) (scans : scansTable lower = true) :
    upper ∈ sharedIn (above ++ lower :: rest) := by
  induction above with
  | nil => cases mem
  | cons op above ih =>
    have any : (above ++ lower :: rest).any scansTable = true :=
      List.any_eq_true.mpr ⟨lower, by simp, scans⟩
    rw [List.cons_append, sharedIn, any, Bool.and_true]
    rcases List.mem_cons.mp mem with rfl | mem
    · rw [if_pos frees]
      exact List.mem_cons_self
    · split
      · exact List.mem_cons_of_mem _ (ih mem)
      · exact ih mem

lemma freesTable_of_execute {join : Operator} (h : .free join ∈ execute join) :
    freesTable join = true := by
  unfold execute at h
  unfold freesTable
  split at h <;> simp_all [freesInExecute]

lemma isJoin_of_execute {join : Operator} {i : Instruction} (h : i ∈ execute join) :
    ∃ kind, join.type = .join kind := by
  unfold execute at h
  split at h <;> simp_all

lemma isJoinSource_of_getData {join : Operator} (h : .free join ∈ getData join) :
    join.isJoinSource = true := by
  unfold getData at h
  unfold Operator.isJoinSource
  split at h <;> simp_all [JoinKind.isSource]

lemma isJoin_of_getData {join : Operator} {i : Instruction} (h : i ∈ getData join) :
    ∃ kind, join.type = .join kind := by
  unfold getData at h
  split at h <;> simp_all

/-- A join frees its table in `Execute` or has it scanned, not both. -/
lemma not_getData_of_free {join : Operator} (h : .free join ∈ execute join) {i : Instruction}
    (use : i = .read join ∨ i = .free join) : i ∉ getData join := by
  intro hget
  unfold execute at h
  unfold getData at hget
  rcases use with rfl | rfl <;> split at h <;> simp_all

lemma getData_of_notJoin {op : Operator} (h : ∀ kind, op.type ≠ .join kind) : getData op = [] := by
  unfold getData
  split <;> simp_all

/-- A source join that is not scanned is one whose `Execute` always throws. -/
lemma throws_of_source {q : Pipeline} {r : Operator} (hsource : q.source = some r)
    (source : r.isJoinSource = true) (run : isScheduled q = true)
    (notScanned : scansTable r = false) : .throw ∈ execute r := by
  obtain ⟨id, type⟩ := r
  cases type with
  | join kind =>
    cases kind with
    | hashJoin joinType =>
      simp only [isScheduled, hsource] at run
      simp [scansTable, run] at notScanned
    | nestedLoopJoin joinType =>
      cases joinType <;> simp_all [Operator.isJoinSource, JoinKind.isSource, propagatesBuildSide,
        execute]
  | _ => simp [Operator.isJoinSource] at source

/-- The sink that stores what a hash join reads builds the join's table, or throws. -/
lemma build_of_consumer {s join : Operator} (h : join ∈ s.consumers) {i : Instruction}
    (use : i = .read join ∨ i = .free join) (mem : i ∈ getData join ∨ i ∈ execute join) :
    .build join ∈ sink s ∨ .throw ∈ sink s := by
  obtain ⟨joinType, htype⟩ : ∃ joinType, join.type = .join (.hashJoin joinType) := by
    unfold getData execute at mem
    rcases use with rfl | rfl <;> rcases mem with mem | mem <;> split at mem <;> simp_all
  have hsink : .build join ∈ joinSink join.id (.hashJoin joinType) ∨
      .throw ∈ joinSink join.id (.hashJoin joinType) := by
    obtain ⟨id, type⟩ := join
    obtain rfl : type = .join (.hashJoin joinType) := htype
    cases joinType <;> simp [joinSink]
  obtain ⟨id, type⟩ := s
  cases type with
  | join kind =>
    obtain rfl : join = ⟨id, .join kind⟩ := List.mem_singleton.mp h
    obtain rfl : kind = .hashJoin joinType := by simpa using htype
    exact hsink
  | rightDelimJoin distinct joinOp kind =>
    rcases List.mem_cons.mp h with rfl | h
    · simp at htype
    · obtain rfl := List.mem_singleton.mp h
      obtain rfl : kind = .hashJoin joinType := by simpa using htype
      exact hsink
  | leftDelimJoin distinct cachedScan =>
    simp only [Operator.consumers, List.mem_cons, List.not_mem_nil, or_false] at h
    rcases h with rfl | rfl <;> simp at htype
  | cte scans =>
    obtain ⟨_, _, rfl⟩ := List.mem_map.mp h
    simp at htype
  | _ =>
    obtain rfl := List.mem_singleton.mp h
    simp at htype

lemma unfed_notJoin (p : Plan) {op : Operator} (h : op ∈ p.unfed) (kind : JoinKind) :
    op.type ≠ .join kind := by
  induction p with
  | scan =>
    obtain rfl := List.mem_singleton.mp h
    simp
  | unary _ unaryType _ ih =>
    unfold Plan.unfed at h
    split at h
    · cases h
    · rcases List.mem_cons.mp h with rfl | h
      · simp
      · exact ih h
  | join _ _ _ _ ih _ => exact ih h
  | cte _ _ _ _ _ ih => exact ih h
  | rightDelimJoin _ _ _ _ _ _ _ _ _ ih => exact ih h
  | _ => cases h

lemma Before.irrefl {p q : Pipeline} (distinct : scheduled.Nodup) (h : Before scheduled p q)
    (h' : Before scheduled q p) : False := by
  induction scheduled with
  | nil => cases h
  | cons a l ih =>
    obtain ⟨fresh, distinct⟩ := List.nodup_cons.mp distinct
    rcases List.cons_sublist_cons'.mp h with first | ⟨rfl, first⟩
    · rcases List.cons_sublist_cons'.mp h' with second | ⟨rfl, _⟩
      · exact ih distinct first second
      · exact fresh (first.subset (List.mem_cons_of_mem _ List.mem_cons_self))
    · rcases List.cons_sublist_cons'.mp h' with second | ⟨rfl, _⟩
      · exact fresh (second.subset (List.mem_cons_of_mem _ List.mem_cons_self))
      · exact fresh (first.subset List.mem_cons_self)

lemma Before.of_split {p q : Pipeline} {pre post : List Pipeline} (hp : p ∈ pre) :
    Before (pre ++ q :: post) p q :=
  (List.singleton_sublist.mpr hp).append (List.singleton_sublist.mpr List.mem_cons_self)

lemma Before.mem_pre {p q : Pipeline} {pre post : List Pipeline}
    (distinct : (pre ++ q :: post).Nodup) (h : Before (pre ++ q :: post) p q) : p ∈ pre := by
  have hp : p ∈ pre ++ q :: post := h.subset (by simp)
  rcases List.mem_append.mp hp with hp | hp
  · exact hp
  · exfalso
    rcases List.mem_cons.mp hp with rfl | hp
    · have twice := h.count_le p
      have once := List.nodup_iff_count_le_one.mp distinct p
      simp at twice once
      omega
    · refine Before.irrefl distinct h ?_
      rw [List.append_cons]
      exact ((List.singleton_sublist.mpr (by simp)).append (List.singleton_sublist.mpr hp))

/-- A scheduled pipeline with the group it was built in. -/
lemma home (h : Scheduling plan metas fuel scheduled) (wf : plan.WellFormed) {q : Pipeline}
    (hq : q ∈ scheduled) : ∃ m ∈ metas, ∃ q₀ ∈ m.pipelines, q₀.ready = q ∧
      ∃ feed ∈ plan.feeds, Group feed m ∧ Fed metas feed.2 m := by
  obtain ⟨_, x, hx, hqx⟩ := ((h.topological wf).complete q).mp hq
  obtain ⟨m, hm, rfl⟩ := List.mem_map.mp hx
  rw [ready_pipelines] at hqx
  obtain ⟨q₀, hq₀, rfl⟩ := List.mem_map.mp hqx
  obtain ⟨feed, hfeed, group, fed⟩ := forall₂_mem_right h.built.groups hm
  exact ⟨m, hm, q₀, hq₀, rfl, feed, hfeed, group, fed⟩

lemma base_scheduled (h : Scheduling plan metas fuel scheduled) (wf : plan.WellFormed)
    {m : MetaPipeline} (hm : m ∈ metas) : m.base.ready ∈ scheduled := by
  obtain ⟨_, _, group, _⟩ := forall₂_mem_right h.built.groups hm
  refine ((h.topological wf).complete _).mpr ⟨group.base_isScheduled, m.ready, ?_, ?_⟩
  · exact List.mem_map.mpr ⟨m, hm, rfl⟩
  · rw [ready_pipelines]
    exact List.mem_cons_self

/-- Whoever reads a join runs after a pipeline that ends in the join's build side. -/
lemma built_before (h : Scheduling plan metas fuel scheduled) (wf : plan.WellFormed)
    {q : Pipeline} (hq : q ∈ scheduled) {join : Operator} {kind : JoinKind}
    (hkind : join.type = .join kind) (huse : join ∈ uses q) :
    ∃ p s, p.sink = some s ∧ join ∈ s.consumers ∧ Before scheduled p q := by
  obtain ⟨m, hm, q₀, hq₀, rfl, feed, hfeed, group, fed⟩ := home h wf hq
  have huse₀ : join ∈ uses q₀ := by
    simpa [uses, Pipeline.ready] using huse
  rcases fed join ((group.mem_pipelines hq₀).2.2 join huse₀) with reads | free
  · obtain ⟨z, hz, _, s, hs, hcons⟩ := reads
    obtain ⟨feed', _, group', _⟩ := forall₂_mem_right h.built.groups hz
    have hsink : z.base.ready.sink = some s :=
      group'.baseSink.trans (group'.sink.symm.trans hs)
    exact ⟨z.base.ready, s, hsink, hcons, (h.topological wf).stored _ (base_scheduled h wf hz) _
      hq s hsink join hcons huse⟩
  · exact False.elim (unfed_notJoin _ free kind hkind)

/-- A pipeline that runs a join again is a child pipeline, and the join stands above its
source; the pipeline it was created from has run the source. -/
lemma rerun (h : Scheduling plan metas fuel scheduled) (wf : plan.WellFormed)
    {p q : Pipeline} (hp : p ∈ scheduled) (hq : q ∈ scheduled) {join : Operator}
    (hjp : join ∈ p.operators) (hjq : join ∈ q.operators) (before : Before scheduled p q) :
    ∃ r, q.source = some r ∧ r.isJoinSource = true ∧
      (∃ feed ∈ plan.feeds, ∃ above rest, feed.2.spine = above ++ r :: rest ∧ join ∈ above) ∧
      ∃ b, r ∈ b.operators ∧ Before scheduled b q := by
  have top := h.topological wf
  have distinct : scheduled.Nodup := List.Nodup.of_map _ top.once
  obtain ⟨m, hm, p₀, hp₀, rfl, _, _, groupP, _⟩ := home h wf hp
  obtain ⟨m', hm', q₀, hq₀, rfl, feed, hfeed, group, _⟩ := home h wf hq
  have hjp₀ : join ∈ p₀.operators := List.mem_reverse.mp hjp
  have hjq₀ : join ∈ q₀.operators := List.mem_reverse.mp hjq
  obtain rfl := h.built.spine_eq wf hm hm' (groupP.operators_subset hp₀ hjp₀)
    (group.operators_subset hq₀ hjq₀)
  have hbase := base_scheduled h wf hm
  -- the base pipeline of the group comes before a child of it, whose source it runs
  have child : ∀ c ∈ m.childPipelines, c.ready ∈ scheduled → ∃ r, c.source = some r ∧
      r.isJoinSource = true ∧ (∃ rest, feed.2.spine = c.operators ++ r :: rest) ∧
      r ∈ m.base.ready.operators ∧ Before scheduled m.base.ready c.ready := by
    intro c hc hscheduled
    obtain ⟨r, hsource, source, rest, hspine⟩ := group.children.split hc
    have hr : r ∈ m.base.ready.operators := by
      refine List.mem_reverse.mpr ?_
      rw [group.operators, hspine]
      simp
    exact ⟨r, hsource, source, ⟨rest, hspine⟩, hr,
      top.probes _ hbase _ hscheduled r source hsource hr⟩
  rcases List.mem_cons.mp hq₀ with rfl | hq₀
  · rcases List.mem_cons.mp hp₀ with rfl | hp₀
    · exact False.elim (Before.irrefl distinct before before)
    · obtain ⟨_, _, _, _, _, later⟩ := child p₀ hp₀ hp
      exact False.elim (Before.irrefl distinct before later)
  · obtain ⟨r, hsource, source, ⟨rest, hspine⟩, hr, earlier⟩ := child q₀ hq₀ hq
    exact ⟨r, hsource, source, ⟨feed, hfeed, q₀.operators, rest, hspine, hjq₀⟩, _, hr, earlier⟩

/-- A join's table is scanned by one pipeline. -/
lemma scan_unique (h : Scheduling plan metas fuel scheduled) (wf : plan.WellFormed)
    {p q : Pipeline} (hp : p ∈ scheduled) (hq : q ∈ scheduled) {join : Operator}
    (source : join.isJoinSource = true) (hsp : p.source = some join)
    (hsq : q.source = some join) : p = q := by
  obtain ⟨m, hm, p₀, hp₀, rfl, _, _, groupP, _⟩ := home h wf hp
  obtain ⟨m', hm', q₀, hq₀, rfl, feed, _, group, _⟩ := home h wf hq
  have hsp : p₀.source = some join := hsp
  have hsq : q₀.source = some join := hsq
  obtain rfl := h.built.spine_eq wf hm hm'
    (groupP.join_mem source ((groupP.mem_pipelines hp₀).2.2 join (by simp [uses, hsp])))
    (group.join_mem source ((group.mem_pipelines hq₀).2.2 join (by simp [uses, hsq])))
  have child : ∀ c ∈ m.pipelines, c.source = some join → c ∈ m.childPipelines := by
    intro c hc hsource
    rcases List.mem_cons.mp hc with rfl | hc
    · obtain ⟨src, hsrc, notJoin⟩ := group.source
      obtain rfl := Option.some.inj (hsrc.symm.trans hsource)
      obtain ⟨kind, hkind⟩ := isJoinSource_type source
      exact False.elim (notJoin kind hkind)
    · exact hc
  have hpc := child p₀ hp₀ hsp
  have hqc := child q₀ hq₀ hsq
  obtain ⟨r, hr, _, rest, hspine⟩ := group.children.split hpc
  obtain ⟨r', hr', _, rest', hspine'⟩ := group.children.split hqc
  obtain rfl := Option.some.inj (hr.symm.trans hsp)
  obtain rfl := Option.some.inj (hr'.symm.trans hsq)
  have distinct := group.distinct
  rw [hspine', List.nodup_append, List.nodup_cons] at distinct
  have above : r' ∉ q₀.operators := by
    intro hmem
    exact distinct.2.2 r' hmem r' List.mem_cons_self rfl
  have same := (List.append_cons_inj_of_notMem above distinct.2.1.1).mp (hspine'.symm.trans hspine)
  have equal : q₀ = p₀ := List.inj_on_of_nodup_map group.children_nodup hqc hpc
    (Prod.ext same.1 (hsq.trans hsp.symm))
  rw [equal]

lemma ends_free (h : Scheduling plan metas fuel scheduled) (wf : plan.WellFormed)
    {q : Pipeline} (hq : q ∈ scheduled) (join : Operator) :
    FreeLast join ((runPipeline q).filter (isUse join)) := by
  obtain ⟨m, hm, q₀, hq₀, rfl, feed, _, group, _⟩ := home h wf hq
  have whole : m.base.operators.Nodup := by
    rw [group.operators]
    exact group.distinct
  apply filter_runPipeline
  · refine List.nodup_reverse.mpr ?_
    rcases List.mem_cons.mp hq₀ with rfl | hq₀
    · exact whole
    · obtain ⟨_, _, _, rest, hspine⟩ := group.children.split hq₀
      exact group.distinct.sublist (hspine ▸ List.sublist_append_left _ _)
  · intro op hsource
    have hsource : q₀.source = some op := hsource
    rcases List.mem_cons.mp hq₀ with rfl | hq₀
    · obtain ⟨src, hsrc, notJoin⟩ := group.source
      obtain rfl := Option.some.inj (hsrc.symm.trans hsource)
      exact Or.inl (getData_of_notJoin notJoin)
    · refine Or.inr ?_
      intro hmem
      have hmem : op ∈ q₀.operators := List.mem_reverse.mp hmem
      obtain ⟨r, hr, _, rest, hspine⟩ := group.children.split hq₀
      obtain rfl := Option.some.inj (hr.symm.trans hsource)
      have distinct := group.distinct
      rw [hspine] at distinct
      exact (List.nodup_append.mp distinct).2.2 _ hmem _ List.mem_cons_self rfl

/-- The position of an instruction in a schedule: a pipeline and a place in it. -/
lemma flatMap_split {α β : Type} {f : α → List β} {l : List α} {pre post : List β} {b : β}
    (h : l.flatMap f = pre ++ b :: post) : ∃ l₁ a l₂ xs ys, l = l₁ ++ a :: l₂ ∧
      f a = xs ++ b :: ys ∧ pre = l₁.flatMap f ++ xs := by
  induction l generalizing pre with
  | nil => simp at h
  | cons a l ih =>
    rw [List.flatMap_cons] at h
    rcases List.append_eq_append_iff.mp h with ⟨xs, hpre, hrest⟩ | ⟨ys, hfa, hrest⟩
    · obtain ⟨l₁, c, l₂, zs, ws, rfl, hc, hxs⟩ := ih hrest
      refine ⟨a :: l₁, c, l₂, zs, ws, rfl, hc, ?_⟩
      rw [hpre, hxs, List.flatMap_cons, List.append_assoc]
    · cases ys with
      | nil =>
        have hrest : l.flatMap f = [] ++ b :: post := hrest.symm
        obtain ⟨l₁, c, l₂, zs, ws, rfl, hc, hxs⟩ := ih hrest
        refine ⟨a :: l₁, c, l₂, zs, ws, rfl, hc, ?_⟩
        rw [List.flatMap_cons, List.append_assoc, ← hxs, hfa, List.append_nil, List.append_nil]
      | cons y ys =>
        obtain ⟨rfl, _⟩ := List.cons.inj hrest
        exact ⟨[], a, l, pre, ys, rfl, hfa, rfl⟩

/-- A schedule uses every table between its build and its free, but those of shared joins. -/
theorem schedule_ordered (h : Scheduling plan metas fuel scheduled) (wf : plan.WellFormed) :
    Ordered (· ∈ sharedJoins plan) (scheduled.flatMap runPipeline) := by
  have top := h.topological wf
  have distinct : scheduled.Nodup := List.Nodup.of_map _ top.once
  intro pre i post join hsplit noThrow use
  obtain ⟨done, q, todo, xs, ys, hscheduled, hq, rfl⟩ := flatMap_split hsplit
  have hmem : q ∈ scheduled := by
    rw [hscheduled]
    simp
  have hi : i ∈ runPipeline q := by
    rw [hq]
    simp
  have doneFirst : ∀ p, Before scheduled p q → p ∈ done := by
    intro p hp
    rw [hscheduled] at hp distinct
    exact Before.mem_pre distinct hp
  have completed : ∀ p ∈ done, .throw ∉ runPipeline p := by
    intro p hp hthrow
    exact noThrow (List.mem_append_left _ (List.mem_flatMap.mpr ⟨p, hp, hthrow⟩))
  have place := mem_runPipeline hi use
  have huse : join ∈ uses q := by
    rcases place with ⟨hsource, _⟩ | ⟨hop, _⟩
    · simp [uses, hsource]
    · exact List.mem_append_right _ hop
  constructor
  · obtain ⟨kind, hkind⟩ : ∃ kind, join.type = .join kind := by
      rcases place with ⟨_, hget⟩ | ⟨_, hexec⟩
      · exact isJoin_of_getData hget
      · exact isJoin_of_execute hexec
    obtain ⟨p, s, hs, hcons, before⟩ := built_before h wf hmem hkind huse
    have hp := doneFirst p before
    have inSink : ∀ x ∈ sink s, x ∈ runPipeline p := by
      intro x hx
      refine List.mem_append_right _ (List.mem_append_right _ ?_)
      simpa [hs] using hx
    rcases build_of_consumer hcons use (place.imp And.right And.right) with build | throw
    · exact List.mem_append_left _ (List.mem_flatMap.mpr ⟨p, hp, inSink _ build⟩)
    · exact False.elim (completed p hp (inSink _ throw))
  · intro hfree
    rcases List.mem_append.mp hfree with hfree | hfree
    · obtain ⟨p, hp, hfree⟩ := List.mem_flatMap.mp hfree
      have before : Before scheduled p q := by
        rw [hscheduled]
        exact Before.of_split hp
      have hps : p ∈ scheduled := by
        rw [hscheduled]
        exact List.mem_append_left _ hp
      rcases mem_runPipeline hfree (Or.inr rfl) with ⟨hsource, hget⟩ | ⟨hop, hexec⟩
      · exfalso
        have source := isJoinSource_of_getData hget
        rcases place with ⟨hsourceq, _⟩ | ⟨hopq, _⟩
        · obtain rfl := scan_unique h wf hps hmem source hsource hsourceq
          exact Before.irrefl distinct before before
        · exact Before.irrefl distinct before
            (top.probes q hmem p hps join source hsource hopq)
      · rcases place with ⟨_, hget⟩ | ⟨hopq, _⟩
        · exact False.elim (not_getData_of_free hexec use hget)
        · obtain ⟨r, hsource, source, ⟨feed, hfeed, above, rest, hspine, hmemAbove⟩, b, hb,
            earlier⟩ := rerun h wf hps hmem hop hopq before
          by_cases scanned : scansTable r = true
          · refine List.mem_flatMap.mpr ⟨feed, hfeed, ?_⟩
            rw [hspine]
            exact mem_sharedIn hmemAbove (freesTable_of_execute hexec) scanned
          · have throws := throws_of_source hsource source ((top.complete q).mp hmem).1
              (Bool.eq_false_iff.mpr scanned)
            refine False.elim (completed b (doneFirst b earlier) ?_)
            exact List.mem_append_right _
              (List.mem_append_left _ (List.mem_flatMap.mpr ⟨r, hb, throws⟩))
    · exact False.elim ((ends_free h wf hmem join).split hq use hfree)

/-- In every run of every schedule, wherever it stops, tables are built before they are read,
freed at most once, and not read after that, if the shared joins have empty build sides and
no other code frees a block that is a table. -/
theorem run_lifetimes (wf : plan.WellFormed) (inScope : plan.Scoped [] [])
    (returns : initializeInternal plan fuel = .ok (some scheduled)) {trace : List Event}
    (run : Run initial (scheduled.flatMap runPipeline) trace)
    (empty : ∀ join ∈ sharedJoins plan, ∀ pointer, .build join pointer ∈ trace →
      pointer = .nullptr)
    (spared : Spared trace) : Lifetimes trace := by
  obtain ⟨metas, h⟩ := scheduling_of_returns wf inScope returns
  have ordered := schedule_ordered h wf
  exact ledger_initial.run ordered (by simp) run empty spared

end Schedule

section Runs

/-- A RIGHT join above an INNER join: only the right join's table is scanned. -/
def rightOverInner : Plan :=
  .resultCollector 0 (.join 1 (.hashJoin .right)
    (.join 2 (.hashJoin .inner) (.scan 3 .tableScan) (.scan 4 .tableScan)) (.scan 5 .tableScan))

/-- A SEMI join above a RIGHT join: it is executed in two pipelines. -/
def semiOverRight : Plan :=
  .resultCollector 0 (.join 1 (.hashJoin .semi)
    (.join 2 (.hashJoin .right) (.scan 3 .tableScan) (.scan 4 .tableScan)) (.scan 5 .tableScan))

/-- Other code gets the block of the inner join's table after its free, and frees it. -/
def reusedBlock : List Event :=
  let right : Operator := ⟨1, .join (.hashJoin .right)⟩
  let inner : Operator := ⟨2, .join (.hashJoin .inner)⟩
  [.build inner (.block 0), .build right (.block 1), .free inner (.block 0),
    .read right (.block 1), .release 0, .read right (.block 1), .free right (.block 1)]

theorem rightOverInner_lifetimes : ∃ scheduled,
    initializeInternal rightOverInner 9 = .ok (some scheduled) ∧
      Run initial (scheduled.flatMap runPipeline) reusedBlock ∧ Lifetimes reusedBlock := by
  have wf : rightOverInner.WellFormed := by decide
  have inScope : rightOverInner.Scoped [] [] := by simp [rightOverInner, Plan.Scoped]
  obtain ⟨scheduled, returns, instructions⟩ : ∃ scheduled,
      initializeInternal rightOverInner 9 = .ok (some scheduled) ∧
        scheduled.flatMap runPipeline =
          [.build ⟨2, .join (.hashJoin .inner)⟩, .build ⟨1, .join (.hashJoin .right)⟩,
            .free ⟨2, .join (.hashJoin .inner)⟩, .read ⟨1, .join (.hashJoin .right)⟩,
            .read ⟨1, .join (.hashJoin .right)⟩, .free ⟨1, .join (.hashJoin .right)⟩] :=
    ⟨_, rfl, rfl⟩
  have run : Run initial (scheduled.flatMap runPipeline) reusedBlock := by
    rw [instructions]
    exact .step (.build _ _ 0 (by decide)) (.step (.build _ _ 1 (by decide))
      (.step (.free (by decide)) (.malloc 0 (by decide) (.step (.read _ _)
        (.release 0 (.step (.read _ _) (.step (.free (by decide)) (.stop _ _))))))))
  refine ⟨scheduled, returns, run, run_lifetimes wf inScope returns run ?_ ?_⟩
  · have none : sharedJoins rightOverInner = [] := by decide
    rw [none]
    simp
  · simp only [Spared, reusedBlock, List.cons_eq_append_iff]
    simp +contextual [Alive, List.cons_eq_append_iff, Event.freed]

/-- The semi join's second execution probes the table that its first has freed. -/
theorem not_every_run_lifetimes :
    ¬ ∀ plan : Plan, plan.WellFormed → plan.Scoped [] [] → ∀ fuel scheduled trace,
      initializeInternal plan fuel = .ok (some scheduled) →
      Run initial (scheduled.flatMap runPipeline) trace → Lifetimes trace := by
  intro every
  let right : Operator := ⟨2, .join (.hashJoin .right)⟩
  let semi : Operator := ⟨1, .join (.hashJoin .semi)⟩
  obtain ⟨scheduled, returns, instructions⟩ : ∃ scheduled,
      initializeInternal semiOverRight 9 = .ok (some scheduled) ∧
        scheduled.flatMap runPipeline = [.build right, .build semi, .read right, .read semi,
          .free semi, .read right, .free right, .read semi, .free semi] := ⟨_, rfl, rfl⟩
  let past : List Event := [.build right (.block 0), .build semi (.block 1),
    .read right (.block 0), .read semi (.block 1), .free semi (.block 1),
    .read right (.block 0), .free right (.block 0)]
  have run : Run initial (scheduled.flatMap runPipeline)
      [.build right (.block 0), .build semi (.block 1), .read right (.block 0),
        .read semi (.block 1), .free semi (.block 1), .read right (.block 0),
        .free right (.block 0), .read semi (.block 1)] := by
    rw [instructions]
    exact .step (.build _ _ 0 (by decide)) (.step (.build _ _ 1 (by decide))
      (.step (.read _ _) (.step (.read _ _) (.step (.free (by decide)) (.step (.read _ _)
        (.step (.free (by decide)) (.step (.read _ _) (.stop _ _))))))))
  have lifetimes := every semiOverRight (by decide) (by simp [semiOverRight, Plan.Scoped]) 9
    scheduled _ returns run
  have alive : Alive past semi (.block 1) := lifetimes.read past semi (.block 1) [] rfl
  simp [Alive, past, right, semi, List.cons_eq_append_iff, Event.freed] at alive

end Runs

end HashTableLifetime
