import SiriusGpu.PipelineOrder

/-!
# Readers of stored data wait for the sink

An operator of a pipeline that reads what a sink has stored is in the pipeline
of a meta-pipeline that depends on the sink's: the build side of a join, the
input of an aggregate or order, the materialised side of a CTE or delim join.
-/

namespace PipelineReaders

open PhysicalPlan PipelineBuild PipelineGrowth PipelineOrder

variable {p : Plan} {m m' : MetaPipeline} {st st' : BuildState}

def uses (p : Pipeline) : List Operator := p.source.toList ++ p.operators

/-- `op` reads a finished meta-pipeline's sink, and that one is among the dependencies. -/
def Reads (finished : List MetaPipeline) (dependencies : List Nat) (op : Operator) : Prop :=
  ∃ z ∈ finished, z.base.id ∈ dependencies ∧ ∃ sink, z.sink = some sink ∧ op ∈ sink.consumers

lemma Reads.mono {finished finished' : List MetaPipeline} {deps deps' : List Nat} {op : Operator}
    (h : Reads finished deps op) (more : finished ⊆ finished') (depends : deps ⊆ deps') :
    Reads finished' deps' op := by
  obtain ⟨z, hz, hid, hsink⟩ := h
  exact ⟨z, more hz, depends hid, hsink⟩

/-- The entries of the build state name finished meta-pipelines of the right sinks. -/
structure Registered (finished : List MetaPipeline) (st : BuildState) : Prop where
  cte : ∀ op id, (op, id) ∈ st.cteDependencies → ∃ z ∈ finished, z.base.id = id ∧
    ∃ sink, z.sink = some sink ∧ (⟨op, .cteScan⟩ : Operator) ∈ sink.consumers
  delimJoin : ∀ op id sink, (op, id, sink) ∈ st.delimJoinDependencies →
    ∃ z ∈ finished, z.base.id = id ∧ z.sink = some sink

lemma Registered.mono {finished finished' : List MetaPipeline} (h : Registered finished st)
    (more : finished ⊆ finished') : Registered finished' st := by
  constructor
  · intro op id hmem
    obtain ⟨z, hz, rest⟩ := h.cte op id hmem
    exact ⟨z, more hz, rest⟩
  · intro op id sink hmem
    obtain ⟨z, hz, rest⟩ := h.delimJoin op id sink hmem
    exact ⟨z, more hz, rest⟩

lemma Registered.cteScans {finished : List MetaPipeline} (h : Registered finished st)
    {z : MetaPipeline} (hz : z ∈ finished) {op : OpId} {scans : List OpId}
    (hsink : z.sink = some ⟨op, .cte scans⟩) :
    Registered finished (registerCteScans scans z.base.id st) := by
  constructor
  · intro scan id hmem
    rcases List.mem_append.mp hmem with hmem | hmem
    · exact h.cte scan id hmem
    · obtain ⟨a, ha, heq⟩ := List.mem_map.mp hmem
      cases heq
      exact ⟨z, hz, rfl, _, hsink, List.mem_map.mpr ⟨scan, ha, rfl⟩⟩
  · exact h.delimJoin

lemma Registered.delimScans {finished : List MetaPipeline} (h : Registered finished st)
    {z : MetaPipeline} (hz : z ∈ finished) {sink : Operator} (scans : List OpId)
    (hsink : z.sink = some sink) :
    Registered finished (registerDelimScans scans z.base.id sink st) := by
  constructor
  · exact h.cte
  · intro scan id sink' hmem
    rcases List.mem_append.mp hmem with hmem | hmem
    · exact h.delimJoin scan id sink' hmem
    · obtain ⟨a, _, heq⟩ := List.mem_map.mp hmem
      cases heq
      exact ⟨z, hz, rfl, hsink⟩

/-- Every operator of the pipeline built for `p` reads a sink it depends on, or none. -/
def Fed (finished : List MetaPipeline) (p : Plan) (m : MetaPipeline) : Prop :=
  ∀ op ∈ m.base.source.toList ++ p.spine, Reads finished m.base.dependencies op ∨ op ∈ p.unfed

def AllFed (finished : List MetaPipeline) (feeds : List (Operator × Plan))
    (new : List MetaPipeline) : Prop :=
  List.Forall₂ (fun feed y => Fed finished feed.2 y) feeds new

lemma Fed.mono {finished finished' : List MetaPipeline} (h : Fed finished p m)
    (more : finished ⊆ finished') : Fed finished' p m := by
  intro op hop
  exact (h op hop).imp (fun reads => reads.mono more (fun _ h => h)) id

lemma AllFed.mono {finished finished' : List MetaPipeline} {feeds : List (Operator × Plan)}
    {new : List MetaPipeline} (h : AllFed finished feeds new) (more : finished ⊆ finished') :
    AllFed finished' feeds new :=
  List.Forall₂.imp (fun _ _ fed => fed.mono more) h

lemma delimDistinct_mem {sink distinct : Operator} (h : delimDistinct sink = some distinct) :
    distinct ∈ sink.consumers := by
  obtain ⟨op, type⟩ := sink
  cases type <;> simp [delimDistinct] at h <;> subst h <;> simp [Operator.consumers]

theorem builds_depends (h : Builds p m st m' st') :
    m.base.dependencies ⊆ m'.base.dependencies := by
  have attached : ∀ (m c : MetaPipeline) (st : BuildState),
      m.base.dependencies ⊆ (attach m c st).base.dependencies :=
    fun _ _ _ => List.subset_append_left _ _
  induction h with
  | scan => exact fun _ h => h
  | delimScan | cteScan => exact List.subset_append_left _ _
  | stream _ _ ih => exact ih
  | breaker | resultCollector => exact List.subset_append_left _ _
  | join _ _ _ ih =>
    rw [closeJoin_base]
    exact List.Subset.trans (List.subset_append_left _ _) ih
  | cte _ _ _ ih => exact List.Subset.trans (attached _ _ _) ih
  | leftDelimJoin _ _ _ ih => exact List.Subset.trans (attached _ _ _) ih
  | rightDelimJoin _ _ _ ih =>
    rw [closeJoin_base]
    exact List.Subset.trans (List.subset_append_left _ _) ih

/-- What a build contributes: new meta-pipelines, all fed, and entries that stay right. -/
structure Contributes (finished : List MetaPipeline) (p : Plan) (m m' : MetaPipeline)
    (st' : BuildState) (new : List MetaPipeline) : Prop where
  descendants : m'.descendants = m.descendants ++ new
  registered : Registered (finished ++ new) st'
  base : Fed (finished ++ new) p m'
  below : AllFed (finished ++ new) p.feeds new

lemma Contributes.leaf {finished : List MetaPipeline} (reg : Registered finished st)
    (descendants : m'.descendants = m.descendants) (feeds : p.feeds = [])
    (base : Fed finished p m') : Contributes finished p m m' st [] := by
  refine ⟨by rw [descendants, List.append_nil], ?_, ?_, ?_⟩
  · rwa [List.append_nil]
  · rwa [List.append_nil]
  · rw [feeds]
    exact .nil

lemma subset_cons_middle {α : Type} (xs : List α) (a : α) (ys : List α) :
    xs ++ ys ⊆ xs ++ a :: ys := by
  intro z hz
  rcases List.mem_append.mp hz with hz | hz
  · exact List.mem_append_left _ hz
  · exact List.mem_append_right _ (List.mem_cons_of_mem a hz)

/-- The child of a node, then what is built after it. -/
lemma Contributes.node {finished below rest : List MetaPipeline} {op : Operator} {q : Plan}
    {c m₁ m₂ : MetaPipeline} {st₁ st₂ : BuildState}
    (child : Contributes finished q (startMeta op st) c st₁ below)
    (attached : m₁.descendants = m.descendants ++ c :: c.descendants)
    (tail : Contributes (finished ++ c :: below) p m₁ m₂ st₂ rest) :
    m₂.descendants = m.descendants ++ (c :: (below ++ rest)) ∧
      Registered (finished ++ c :: (below ++ rest)) st₂ ∧
      Fed (finished ++ c :: (below ++ rest)) p m₂ ∧
      AllFed (finished ++ c :: (below ++ rest)) ((op, q) :: (q.feeds ++ p.feeds))
        (c :: (below ++ rest)) := by
  have hbelow : c.descendants = below := child.descendants
  have early : finished ++ below ⊆ finished ++ c :: (below ++ rest) := by
    intro z hz
    simp only [List.mem_append, List.mem_cons] at hz ⊢
    tauto
  have late : finished ++ c :: below ++ rest = finished ++ c :: (below ++ rest) := by simp
  refine ⟨?_, late ▸ tail.registered, late ▸ tail.base, ?_⟩
  · rw [tail.descendants, attached, hbelow]
    simp
  · refine .cons (child.base.mono early) (List.rel_append (child.below.mono early) ?_)
    rw [← late]
    exact tail.below

lemma reads_sink {finished : List MetaPipeline} {c : MetaPipeline} {deps : List Nat}
    {sink op : Operator} (frame : c.base.id = (startMeta sink st).base.id ∧
      c.base.sink = (startMeta sink st).base.sink ∧ c.sink = (startMeta sink st).sink)
    (hc : c ∈ finished) (hdeps : st.nextId ∈ deps) (hop : op ∈ sink.consumers) :
    Reads finished deps op :=
  ⟨c, hc, by rw [frame.1]; exact hdeps, sink, frame.2.2, hop⟩

lemma Registered.advance {finished : List MetaPipeline} (h : Registered finished st) :
    Registered finished (advance st) := ⟨h.cte, h.delimJoin⟩

lemma Registered.closeJoin {finished : List MetaPipeline} (h : Registered finished st)
    (source : Bool) (op : Operator) (last : Nat) :
    Registered finished (closeJoin source op last m st).2 := by
  cases source
  · exact h
  · exact h.advance

/-- A breaker or collector: the source reads what the child meta-pipeline stores. -/
lemma contributes_breaker {finished below : List MetaPipeline} {op : Operator} {q : Plan}
    {c : MetaPipeline} {st₁ : BuildState}
    (build : Builds q (startMeta op st) (PipelineGrowth.advance st) c st₁)
    (child : Contributes finished q (startMeta op st) c st₁ below)
    (spine : p.spine = []) (feeds : p.feeds = (op, q) :: q.feeds) (self : op ∈ op.consumers) :
    Contributes finished p m (attach (m.setPipelineSource op) c st) st₁ (c :: below) := by
  have early := subset_cons_middle finished c below
  have hbelow : c.descendants = below := child.descendants
  refine ⟨?_, child.registered.mono early, ?_, ?_⟩
  · rw [attach_descendants, hbelow, setPipelineSource_descendants]
  · intro x hx
    rw [spine, List.append_nil] at hx
    obtain rfl : x = op := by simpa [attach, MetaPipeline.setPipelineSource,
      MetaPipeline.addDependency, MetaPipeline.pushChild] using hx
    exact Or.inl (reads_sink (builds_frame build) (by simp) (by simp [attach,
      MetaPipeline.addDependency, MetaPipeline.pushChild]) self)
  · rw [feeds]
    exact .cons (child.base.mono early) (child.below.mono early)

/-- The pipeline of a join: the join reads its build side, the rest is the probe side's. -/
lemma fed_join {finished : List MetaPipeline} {q : Plan} {m₂ : MetaPipeline} {source : Bool}
    {op : Operator} {last : Nat} {st₂ : BuildState} (spine : p.spine = op :: q.spine)
    (unfed : p.unfed = q.unfed) (base : Fed finished q m₂)
    (reads : Reads finished m₂.base.dependencies op) :
    Fed finished p (PipelineGrowth.closeJoin source op last m₂ st₂).1 := by
  intro x hx
  rw [closeJoin_base, spine, List.mem_append, List.mem_cons] at hx
  rw [closeJoin_base, unfed]
  rcases hx with hx | rfl | hx
  · exact base x (List.mem_append_left _ hx)
  · exact Or.inl reads
  · exact base x (List.mem_append_right _ hx)

theorem builds_contributes (h : Builds p m st m' st') {finished : List MetaPipeline}
    (reg : Registered finished st) : ∃ new, Contributes finished p m m' st' new := by
  induction h generalizing finished with
  | scan =>
    refine ⟨[], Contributes.leaf reg rfl rfl ?_⟩
    intro op hop
    exact Or.inr (by simpa [Plan.spine, MetaPipeline.setPipelineSource, Plan.unfed] using hop)
  | @delimScan _ pipeline sink distinct _ _ entry aggregate =>
    refine ⟨[], Contributes.leaf reg rfl rfl ?_⟩
    obtain ⟨z, hz, hid, hsink⟩ := reg.delimJoin _ _ _ (lookup_mem entry)
    intro op hop
    obtain rfl : op = distinct := by
      simpa [Plan.spine, MetaPipeline.setPipelineSource] using hop
    refine Or.inl ⟨z, hz, ?_, sink, hsink, delimDistinct_mem aggregate⟩
    simp [hid, MetaPipeline.setPipelineSource, MetaPipeline.addDependency]
  | @cteScan scan pipeline _ _ entry =>
    refine ⟨[], Contributes.leaf reg rfl rfl ?_⟩
    obtain ⟨z, hz, hid, sink, hsink, hmem⟩ := reg.cte _ _ (lookup_mem entry)
    intro op hop
    obtain rfl : op = ⟨scan, .cteScan⟩ := by
      simpa [Plan.spine, MetaPipeline.setPipelineSource] using hop
    refine Or.inl ⟨z, hz, ?_, sink, hsink, hmem⟩
    simp [hid, MetaPipeline.setPipelineSource, MetaPipeline.addDependency]
  | stream kind _ ih =>
    obtain ⟨new, descendants, registered, base, below⟩ := ih reg
    refine ⟨new, descendants, registered, ?_, by simpa [Plan.feeds, kind] using below⟩
    intro x hx
    simp only [Plan.spine, kind, Bool.false_eq_true, if_false, List.mem_append,
      List.mem_cons, Plan.unfed] at hx ⊢
    rcases hx with hx | rfl | hx
    · exact (base x (List.mem_append_left _ hx)).imp id Or.inr
    · exact Or.inr (Or.inl rfl)
    · exact (base x (List.mem_append_right _ hx)).imp id Or.inr
  | breaker kind below ih =>
    obtain ⟨new, child⟩ := ih reg.advance
    exact ⟨_, contributes_breaker below child (by simp [Plan.spine, kind])
      (by simp [Plan.feeds, kind]) (by simp [Operator.consumers])⟩
  | @join op kind lhs rhs m st c st₁ m₂ st₂ build probe ihb ihp =>
    obtain ⟨new, child⟩ := ihb reg.advance
    obtain ⟨rest, tail⟩ := ihp (child.registered.mono (subset_cons_middle _ _ _))
    have attached : (attach (m.addPipelineOperator ⟨op, .join kind⟩) c st).descendants =
        m.descendants ++ c :: c.descendants := by
      rw [attach_descendants, addPipelineOperator_descendants]
    obtain ⟨descendants, registered, base, below⟩ := child.node attached tail
    refine ⟨c :: (new ++ rest), ?_, registered.closeJoin _ _ _, ?_, below⟩
    · rw [closeJoin_descendants, descendants]
    · refine fed_join rfl rfl base (reads_sink (builds_frame build) (by simp) ?_
        (by simp [Operator.consumers]))
      exact builds_depends probe (by simp [attach, MetaPipeline.addDependency,
        MetaPipeline.pushChild])
  | @cte op cteScans definition query m st c st₁ m' st' define rest ihd ihq =>
    obtain ⟨new, child⟩ := ihd reg.advance
    have frame := builds_frame define
    have registered := (child.registered.mono (subset_cons_middle _ c _)).cteScans (by simp)
      frame.2.2
    rw [frame.1] at registered
    obtain ⟨rest, tail⟩ := ihq registered
    obtain ⟨descendants, registered, base, below⟩ := child.node (attach_descendants c) tail
    exact ⟨c :: (new ++ rest), descendants, registered, base, below⟩
  | @leftDelimJoin op distinct delimScans lhs joinOp kind cachedScan rhs m st c st₁ m' st'
      duplicates rest ihl ihr =>
    obtain ⟨new, child⟩ := ihl reg.advance
    have frame := builds_frame duplicates
    have registered := (child.registered.mono (subset_cons_middle _ c _)).delimScans (by simp)
      delimScans frame.2.2
    rw [frame.1] at registered
    obtain ⟨more, tail⟩ := ihr registered
    obtain ⟨descendants, registered, base, below⟩ := child.node (attach_descendants c) tail
    refine ⟨c :: (new ++ more), descendants, registered, ?_, ?_⟩
    · -- the cached scan reads the rows the delim join has kept
      intro x hx
      rcases base x hx with reads | free
      · exact Or.inl reads
      · obtain rfl : x = ⟨cachedScan, .scan .columnDataScan⟩ := by
          simpa [Plan.wrappedLeft, Plan.unfed] using free
        exact Or.inl (reads_sink frame (by simp) (builds_depends rest (by simp [attach,
          MetaPipeline.addDependency, MetaPipeline.pushChild])) (by simp [Operator.consumers]))
    · simpa [Plan.wrappedLeft, Plan.feeds] using below
  | @rightDelimJoin op distinct delimScans rhs joinOp joinType placeholder lhs m st c st₁ m₂ st₂
      duplicates probe ihr ihl =>
    obtain ⟨new, child⟩ := ihr reg.advance
    have frame := builds_frame duplicates
    have registered := (child.registered.mono (subset_cons_middle _ c _)).delimScans (by simp)
      delimScans frame.2.2
    rw [frame.1] at registered
    obtain ⟨rest, tail⟩ := ihl registered
    have attached : ((attach m c st).addPipelineOperator
        ⟨joinOp, .join (.hashJoin joinType)⟩).descendants =
          m.descendants ++ c :: c.descendants := by
      rw [addPipelineOperator_descendants, attach_descendants]
    obtain ⟨descendants, registered, base, below⟩ := child.node attached tail
    refine ⟨c :: (new ++ rest), ?_, registered.closeJoin _ _ _, ?_, below⟩
    · rw [closeJoin_descendants, descendants]
    · refine fed_join rfl rfl base (reads_sink frame (by simp) ?_
        (by simp [Operator.consumers]))
      exact builds_depends probe (by simp [attach, MetaPipeline.addDependency,
        MetaPipeline.pushChild, MetaPipeline.addPipelineOperator])
  | resultCollector below ih =>
    obtain ⟨new, child⟩ := ih reg.advance
    exact ⟨_, contributes_breaker below child rfl rfl (by simp [Operator.consumers])⟩

end PipelineReaders
