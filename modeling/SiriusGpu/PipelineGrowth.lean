import Mathlib.Data.List.Forall2
import SiriusGpu.PipelineBuild
import SiriusGpu.FallibleMaps

/-!
# What building a plan adds

Successful builds as a relation with one rule for each way of building a node,
and what a build adds to the meta-pipeline it is given: its operators, its
source, its child pipelines and the meta-pipelines below it.
-/

namespace PipelineGrowth

open PhysicalPlan PipelineBuild
open FallibleMaps (bind_ok_iff)

section Rules

def advance (st : BuildState) : BuildState := { st with nextId := st.nextId + 1 }

def startMeta (op : Operator) (st : BuildState) : MetaPipeline :=
  createMetaPipeline (some op) st.nextId

def attach (m child : MetaPipeline) (st : BuildState) : MetaPipeline :=
  (m.addDependency st.nextId).pushChild child

/-- The end of a join: a child pipeline when the join is also a source. -/
def closeJoin (asSource : Bool) (op : Operator) (lastPipeline : Nat) (m : MetaPipeline)
    (st : BuildState) : MetaPipeline × BuildState :=
  if asSource then (m.createChildPipeline op lastPipeline st.nextId, advance st) else (m, st)

inductive Builds : Plan → MetaPipeline → BuildState → MetaPipeline → BuildState → Prop
  | scan {op scanType m st} :
    Builds (.scan op scanType) m st (m.setPipelineSource ⟨op, .scan scanType⟩) st
  | delimScan {op pipeline sink distinct m st}
    (entry : lookup st.delimJoinDependencies op = some (pipeline, sink))
    (aggregate : delimDistinct sink = some distinct) :
    Builds (.delimScan op) m st ((m.addDependency pipeline).setPipelineSource distinct) st
  | cteScan {op pipeline m st} (entry : lookup st.cteDependencies op = some pipeline) :
    Builds (.cteScan op) m st ((m.addDependency pipeline).setPipelineSource ⟨op, .cteScan⟩) st
  | stream {op unaryType child m st m' st'} (kind : unaryType.isSink = false)
    (rest : Builds child (m.addPipelineOperator ⟨op, .unary unaryType⟩) st m' st') :
    Builds (.unary op unaryType child) m st m' st'
  | breaker {op unaryType child m st c st'} (kind : unaryType.isSink = true)
    (below : Builds child (startMeta ⟨op, .unary unaryType⟩ st) (advance st) c st') :
    Builds (.unary op unaryType child) m st
      (attach (m.setPipelineSource ⟨op, .unary unaryType⟩) c st) st'
  | join {op kind lhs rhs m st c st₁ m₂ st₂}
    (build : Builds rhs (startMeta ⟨op, .join kind⟩ st) (advance st) c st₁)
    (probe : Builds lhs (attach (m.addPipelineOperator ⟨op, .join kind⟩) c st) st₁ m₂ st₂) :
    Builds (.join op kind lhs rhs) m st
      (closeJoin kind.isSource ⟨op, .join kind⟩ m.lastPipeline m₂ st₂).1
      (closeJoin kind.isSource ⟨op, .join kind⟩ m.lastPipeline m₂ st₂).2
  | cte {op cteScans definition query m st c st₁ m' st'}
    (define : Builds definition (startMeta ⟨op, .cte cteScans⟩ st) (advance st) c st₁)
    (rest : Builds query (attach m c st) (registerCteScans cteScans st.nextId st₁) m' st') :
    Builds (.cte op cteScans definition query) m st m' st'
  | leftDelimJoin {op distinct delimScans lhs joinOp kind cachedScan rhs m st c st₁ m' st'}
    (duplicates : Builds lhs (startMeta ⟨op, .leftDelimJoin distinct cachedScan⟩ st)
      (advance st) c st₁)
    (rest : Builds (Plan.wrappedLeft joinOp kind cachedScan rhs) (attach m c st)
      (registerDelimScans delimScans st.nextId ⟨op, .leftDelimJoin distinct cachedScan⟩ st₁)
      m' st') :
    Builds (.leftDelimJoin op distinct delimScans lhs joinOp kind cachedScan rhs) m st m' st'
  | rightDelimJoin {op distinct delimScans rhs joinOp joinType placeholder lhs m st c st₁ m₂ st₂}
    (duplicates : Builds rhs
      (startMeta ⟨op, .rightDelimJoin distinct joinOp (.hashJoin joinType)⟩ st)
      (advance st) c st₁)
    (probe : Builds lhs
      ((attach m c st).addPipelineOperator ⟨joinOp, .join (.hashJoin joinType)⟩)
      (registerDelimScans delimScans st.nextId
        ⟨op, .rightDelimJoin distinct joinOp (.hashJoin joinType)⟩ st₁) m₂ st₂) :
    Builds (.rightDelimJoin op distinct delimScans rhs joinOp (.hashJoin joinType) placeholder lhs)
      m st
      (closeJoin true ⟨joinOp, .join (.hashJoin joinType)⟩ m.lastPipeline m₂ st₂).1
      (closeJoin true ⟨joinOp, .join (.hashJoin joinType)⟩ m.lastPipeline m₂ st₂).2
  | resultCollector {op plan m st c st'}
    (below : Builds plan (startMeta ⟨op, .resultCollector⟩ st) (advance st) c st') :
    Builds (.resultCollector op plan) m st
      (attach (m.setPipelineSource ⟨op, .resultCollector⟩) c st) st'

lemma lastPipeline_addPipelineOperator (m : MetaPipeline) (op : Operator) :
    (m.addPipelineOperator op).lastPipeline = m.lastPipeline := by
  unfold MetaPipeline.lastPipeline MetaPipeline.addPipelineOperator
  cases m.childPipelines.getLast? <;> rfl

lemma lastPipeline_attach (m c : MetaPipeline) (st : BuildState) :
    (attach m c st).lastPipeline = m.lastPipeline := by
  unfold MetaPipeline.lastPipeline attach MetaPipeline.pushChild MetaPipeline.addDependency
  cases m.childPipelines.getLast? <;> rfl

lemma ok_bind {ε α β : Type} (a : α) (f : α → Except ε β) : (Except.ok a >>= f) = f a := rfl

theorem createChildMetaPipeline_ok {op : Operator} {build : Builder} {m m' : MetaPipeline}
    {st st' : BuildState} (h : createChildMetaPipeline op build m st = .ok (m', st')) :
    ∃ c, build (startMeta op st) (advance st) = .ok (c, st') ∧ m' = attach m c st := by
  obtain ⟨⟨c, st₁⟩, hbuild, hrest⟩ := bind_ok_iff.mp h
  cases hrest
  exact ⟨c, hbuild, rfl⟩

theorem buildJoinPipelines_ok {op : Operator} {asSource : Except BuildError Bool}
    {buildRhs : Option Builder} {buildLhs : Builder} {m m' : MetaPipeline} {st st' : BuildState}
    (h : buildJoinPipelines op asSource buildRhs buildLhs m st = .ok (m', st')) :
    ∃ m₁ st₁ m₂ st₂ source,
      buildRhsOf op buildRhs (m.addPipelineOperator op) st = .ok (m₁, st₁) ∧
      buildLhs m₁ st₁ = .ok (m₂, st₂) ∧ asSource = .ok source ∧
      (m', st') = closeJoin source op m.lastPipeline m₂ st₂ := by
  simp only [buildJoinPipelines, lastPipeline_addPipelineOperator] at h
  obtain ⟨⟨m₁, st₁⟩, hrhs, hrest⟩ := bind_ok_iff.mp h
  obtain ⟨⟨m₂, st₂⟩, hlhs, hrest⟩ := bind_ok_iff.mp hrest
  obtain ⟨source, hsource, hrest⟩ := bind_ok_iff.mp hrest
  refine ⟨m₁, st₁, m₂, st₂, source, hrhs, hlhs, hsource, ?_⟩
  cases source with
  | true => cases hrest; rfl
  | false => cases hrest; rfl

theorem castHashJoin_ok {kind : JoinKind} {source : Bool} (h : castHashJoin kind = .ok source) :
    ∃ joinType, kind = .hashJoin joinType ∧ source = true := by
  cases kind with
  | hashJoin joinType => cases h; exact ⟨joinType, rfl, rfl⟩
  | nestedLoopJoin joinType => cases h

theorem buildPipelines_builds {p : Plan} {m m' : MetaPipeline} {st st' : BuildState}
    (h : buildPipelines p m st = .ok (m', st')) : Builds p m st m' st' := by
  induction p generalizing m m' st st' with
  | scan op scanType => cases h; exact .scan
  | delimScan op =>
    unfold buildPipelines at h
    split at h
    · cases h
    · rename_i entry
      split at h
      · cases h
      · rename_i aggregate
        cases h
        exact .delimScan entry aggregate
  | cteScan op =>
    unfold buildPipelines at h
    split at h
    · cases h
    · rename_i entry
      cases h
      exact .cteScan entry
  | recursiveCteScan op => cases h
  | unary op unaryType child ih =>
    unfold buildPipelines at h
    split at h
    · rename_i kind
      obtain ⟨c, hc, rfl⟩ := createChildMetaPipeline_ok h
      exact .breaker kind (ih hc)
    · rename_i kind
      exact .stream (by simpa using kind) (ih h)
  | join op kind lhs rhs ihl ihr =>
    unfold buildPipelines at h
    obtain ⟨m₁, st₁, m₂, st₂, source, hrhs, hlhs, hsource, hend⟩ := buildJoinPipelines_ok h
    obtain ⟨c, hc, rfl⟩ := createChildMetaPipeline_ok hrhs
    cases hsource
    obtain ⟨rfl, rfl⟩ := Prod.mk.inj hend
    exact .join (ihr hc) (ihl hlhs)
  | cte op cteScans definition query ihd ihq =>
    unfold buildPipelines at h
    obtain ⟨⟨m₁, st₁⟩, hdef, hrest⟩ := bind_ok_iff.mp h
    obtain ⟨c, hc, rfl⟩ := createChildMetaPipeline_ok hdef
    exact .cte (ihd hc) (ihq hrest)
  | leftDelimJoin op distinct delimScans lhs joinOp kind cachedScan rhs ihl ihr =>
    unfold buildPipelines at h
    obtain ⟨⟨m₁, st₁⟩, hdup, hrest⟩ := bind_ok_iff.mp h
    obtain ⟨c, hc, rfl⟩ := createChildMetaPipeline_ok hdup
    obtain ⟨m₂, st₂, m₃, st₃, source, hrhs, hlhs, hsource, hend⟩ := buildJoinPipelines_ok hrest
    obtain ⟨c', hc', rfl⟩ := createChildMetaPipeline_ok hrhs
    cases hlhs
    cases hsource
    obtain ⟨rfl, rfl⟩ := Prod.mk.inj hend
    exact .leftDelimJoin (ihl hc) (.join (ihr hc') .scan)
  | rightDelimJoin op distinct delimScans rhs joinOp kind placeholder lhs ihr ihl =>
    unfold buildPipelines at h
    obtain ⟨⟨m₁, st₁⟩, hdup, hrest⟩ := bind_ok_iff.mp h
    obtain ⟨c, hc, rfl⟩ := createChildMetaPipeline_ok hdup
    obtain ⟨m₂, st₂, m₃, st₃, source, hrhs, hlhs, hsource, hend⟩ := buildJoinPipelines_ok hrest
    cases hrhs
    obtain ⟨joinType, rfl, rfl⟩ := castHashJoin_ok hsource
    rw [lastPipeline_attach] at hend
    obtain ⟨rfl, rfl⟩ := Prod.mk.inj hend
    exact .rightDelimJoin (ihr hc) (ihl hlhs)
  | resultCollector op plan ih =>
    unfold buildPipelines at h
    obtain ⟨c, hc, rfl⟩ := createChildMetaPipeline_ok h
    exact .resultCollector (ih hc)

end Rules

section Total

/-- The build state has entries for the scans in scope, all naming delim joins where due. -/
structure Knows (ctes delims : List OpId) (st : BuildState) : Prop where
  ctes : ∀ op ∈ ctes, ∃ entry ∈ st.cteDependencies, entry.1 = op
  delims : ∀ op ∈ delims, ∃ entry ∈ st.delimJoinDependencies, entry.1 = op
  sinks : ∀ entry ∈ st.delimJoinDependencies, ∃ distinct, delimDistinct entry.2.2 = some distinct

variable {ctes delims : List OpId} {st : BuildState}

lemma Knows.advance (h : Knows ctes delims st) : Knows ctes delims (advance st) :=
  ⟨h.ctes, h.delims, h.sinks⟩

lemma Knows.cteScans (h : Knows ctes delims st) (scans : List OpId) (pipeline : Nat) :
    Knows (ctes ++ scans) delims (registerCteScans scans pipeline st) := by
  refine ⟨?_, h.delims, h.sinks⟩
  intro op hop
  rcases List.mem_append.mp hop with hop | hop
  · obtain ⟨entry, hentry, heq⟩ := h.ctes op hop
    exact ⟨entry, List.mem_append_left _ hentry, heq⟩
  · exact ⟨(op, pipeline), List.mem_append_right _ (List.mem_map.mpr ⟨op, hop, rfl⟩), rfl⟩

lemma Knows.delimScans (h : Knows ctes delims st) (scans : List OpId) (pipeline : Nat)
    {sink distinct : Operator} (hsink : delimDistinct sink = some distinct) :
    Knows ctes (delims ++ scans) (registerDelimScans scans pipeline sink st) := by
  refine ⟨h.ctes, ?_, ?_⟩
  · intro op hop
    rcases List.mem_append.mp hop with hop | hop
    · obtain ⟨entry, hentry, heq⟩ := h.delims op hop
      exact ⟨entry, List.mem_append_left _ hentry, heq⟩
    · exact ⟨(op, pipeline, sink), List.mem_append_right _
        (List.mem_map.mpr ⟨op, hop, rfl⟩), rfl⟩
  · intro entry hentry
    rcases List.mem_append.mp hentry with hentry | hentry
    · exact h.sinks entry hentry
    · obtain ⟨op, _, rfl⟩ := List.mem_map.mp hentry
      exact ⟨distinct, hsink⟩

lemma Knows.weaken {ctes' delims' : List OpId} (h : Knows ctes' delims' st)
    (hc : ctes ⊆ ctes') (hd : delims ⊆ delims') : Knows ctes delims st :=
  ⟨fun op hop => h.ctes op (hc hop), fun op hop => h.delims op (hd hop), h.sinks⟩

lemma lookup_some {α : Type} {entries : List (OpId × α)} {op : OpId}
    (h : ∃ entry ∈ entries, entry.1 = op) :
    ∃ a, lookup entries op = some a ∧ (op, a) ∈ entries := by
  obtain ⟨entry, hentry, rfl⟩ := h
  cases hfind : entries.find? (·.1 = entry.1) with
  | none => simpa using List.find?_eq_none.mp hfind entry hentry
  | some found =>
    have hkey : found.1 = entry.1 := by simpa using List.find?_some hfind
    refine ⟨found.2, by simp [lookup, hfind], ?_⟩
    rw [← hkey]
    exact List.mem_of_find?_eq_some hfind

lemma createChildMetaPipeline_total {op : Operator} {build : Builder} {c : MetaPipeline}
    {st' : BuildState} (h : build (startMeta op st) (advance st) = .ok (c, st'))
    (m : MetaPipeline) : createChildMetaPipeline op build m st = .ok (attach m c st, st') := by
  have h' : build (createMetaPipeline (some op) st.nextId) { st with nextId := st.nextId + 1 } =
      .ok (c, st') := h
  simp only [createChildMetaPipeline, h']
  rfl

lemma buildRhsOf_none (op : Operator) (m : MetaPipeline) (st : BuildState) :
    buildRhsOf op none m st = .ok (m, st) := rfl

lemma buildJoinPipelines_total {op : Operator} {source : Bool} {buildRhs : Option Builder}
    {buildLhs : Builder} {m m₁ m₂ : MetaPipeline} {st₁ st₂ : BuildState}
    (hrhs : buildRhsOf op buildRhs (m.addPipelineOperator op) st = .ok (m₁, st₁))
    (hlhs : buildLhs m₁ st₁ = .ok (m₂, st₂)) :
    buildJoinPipelines op (pure source) buildRhs buildLhs m st =
      .ok (closeJoin source op m.lastPipeline m₂ st₂) := by
  simp only [buildJoinPipelines, hrhs, lastPipeline_addPipelineOperator]
  show (buildLhs m₁ st₁ >>= _) = _
  rw [hlhs]
  cases source <;> rfl

lemma Knows.closeJoin (h : Knows ctes delims st) (source : Bool) (op : Operator) (last : Nat)
    (m : MetaPipeline) : Knows ctes delims (closeJoin source op last m st).2 := by
  cases source
  · exact h
  · exact h.advance

lemma buildJoinPipelines_knows {op : Operator} {source : Bool} {buildRhs : Option Builder}
    {buildLhs : Builder} {m m₁ m₂ : MetaPipeline} {st₁ st₂ : BuildState}
    (hrhs : buildRhsOf op buildRhs (m.addPipelineOperator op) st = .ok (m₁, st₁))
    (hlhs : buildLhs m₁ st₁ = .ok (m₂, st₂)) (knows : Knows ctes delims st₂) :
    ∃ m' st', buildJoinPipelines op (pure source) buildRhs buildLhs m st = .ok (m', st') ∧
      Knows ctes delims st' :=
  ⟨_, _, buildJoinPipelines_total hrhs hlhs, knows.closeJoin _ _ _ _⟩

/-- A plan whose scans are in scope is built without an exception. -/
theorem buildPipelines_total {p : Plan} (inScope : p.Scoped ctes delims)
    (knows : Knows ctes delims st) (m : MetaPipeline) :
    ∃ m' st', buildPipelines p m st = .ok (m', st') ∧ Knows ctes delims st' := by
  induction p generalizing ctes delims m st with
  | scan op scanType => exact ⟨_, _, rfl, knows⟩
  | delimScan op =>
    obtain ⟨⟨pipeline, sink⟩, hlookup, hmem⟩ := lookup_some (knows.delims op inScope)
    obtain ⟨distinct, hdistinct⟩ := knows.sinks _ hmem
    exact ⟨_, _, by simp only [buildPipelines, hlookup, hdistinct]; rfl, knows⟩
  | cteScan op =>
    obtain ⟨pipeline, hlookup, _⟩ := lookup_some (knows.ctes op inScope)
    exact ⟨_, _, by simp only [buildPipelines, hlookup]; rfl, knows⟩
  | recursiveCteScan op => exact False.elim inScope
  | unary op unaryType child ih =>
    cases kind : unaryType.isSink with
    | true =>
      obtain ⟨c, st', hc, knows'⟩ := ih inScope knows.advance (startMeta ⟨op, .unary unaryType⟩ st)
      refine ⟨attach (m.setPipelineSource ⟨op, .unary unaryType⟩) c st, st', ?_, knows'⟩
      simp only [buildPipelines, kind, if_true, createChildMetaPipeline_total hc]
    | false =>
      obtain ⟨m', st', h, knows'⟩ := ih inScope knows (m.addPipelineOperator ⟨op, .unary unaryType⟩)
      exact ⟨m', st', by simpa [buildPipelines, kind] using h, knows'⟩
  | join op kind lhs rhs ihl ihr =>
    obtain ⟨c, st₁, hc, knows₁⟩ := ihr inScope.2 knows.advance (startMeta ⟨op, .join kind⟩ st)
    have hrhs := createChildMetaPipeline_total hc (m.addPipelineOperator ⟨op, .join kind⟩)
    obtain ⟨m₂, st₂, hlhs, knows₂⟩ := ihl inScope.1 knows₁ _
    exact buildJoinPipelines_knows hrhs hlhs knows₂
  | cte op cteScans definition query ihd ihq =>
    obtain ⟨c, st₁, hc, knows₁⟩ := ihd inScope.1 knows.advance (startMeta ⟨op, .cte cteScans⟩ st)
    obtain ⟨m', st', hq, knows'⟩ :=
      ihq inScope.2 (knows₁.cteScans cteScans st.nextId) (attach m c st)
    refine ⟨m', st', ?_, knows'.weaken (List.subset_append_left _ _) (fun _ h => h)⟩
    simp only [buildPipelines, createChildMetaPipeline_total hc m, ok_bind]
    exact hq
  | leftDelimJoin op distinct delimScans lhs joinOp kind cachedScan rhs ihl ihr =>
    obtain ⟨c, st₁, hc, knows₁⟩ := ihl inScope.1 knows.advance
      (startMeta ⟨op, .leftDelimJoin distinct cachedScan⟩ st)
    have registered := knows₁.delimScans delimScans st.nextId
      (rfl : delimDistinct ⟨op, .leftDelimJoin distinct cachedScan⟩ = some _)
    obtain ⟨c', st₂, hc', knows₂⟩ := ihr inScope.2 registered.advance
      (startMeta ⟨joinOp, .join kind⟩ _)
    have hrhs : buildRhsOf ⟨joinOp, .join kind⟩ (some (buildPipelines rhs)) _ _ = _ :=
      createChildMetaPipeline_total hc'
        ((attach m c st).addPipelineOperator ⟨joinOp, .join kind⟩)
    simp only [buildPipelines, createChildMetaPipeline_total hc m, ok_bind]
    exact buildJoinPipelines_knows hrhs rfl
      (knows₂.weaken (fun _ h => h) (List.subset_append_left _ _))
  | rightDelimJoin op distinct delimScans rhs joinOp kind placeholder lhs ihr ihl =>
    obtain ⟨joinType, rfl⟩ := inScope.2.2
    obtain ⟨c, st₁, hc, knows₁⟩ := ihr inScope.1 knows.advance
      (startMeta ⟨op, .rightDelimJoin distinct joinOp (.hashJoin joinType)⟩ st)
    have registered := knows₁.delimScans delimScans st.nextId
      (rfl : delimDistinct ⟨op, .rightDelimJoin distinct joinOp (.hashJoin joinType)⟩ = some _)
    obtain ⟨m₂, st₂, hlhs, knows₂⟩ := ihl inScope.2.1 registered _
    simp only [buildPipelines, createChildMetaPipeline_total hc m, ok_bind]
    exact buildJoinPipelines_knows (buildRhsOf_none _ _ _) hlhs
      (knows₂.weaken (fun _ h => h) (List.subset_append_left _ _))
  | resultCollector op plan ih =>
    obtain ⟨c, st', hc, knows'⟩ := ih inScope knows.advance (startMeta ⟨op, .resultCollector⟩ st)
    exact ⟨_, st', createChildMetaPipeline_total hc _, knows'⟩

end Total

section Base

variable {p : Plan} {m m' : MetaPipeline} {st st' : BuildState}

@[simp] theorem closeJoin_base (source : Bool) (op : Operator) (last : Nat) :
    (closeJoin source op last m st).1.base = m.base := by
  cases source <;> rfl

@[simp] theorem closeJoin_sink (source : Bool) (op : Operator) (last : Nat) :
    (closeJoin source op last m st).1.sink = m.sink := by
  cases source <;> rfl

@[simp] theorem closeJoin_descendants (source : Bool) (op : Operator) (last : Nat) :
    (closeJoin source op last m st).1.descendants = m.descendants := by
  cases source <;> rfl

@[simp] theorem setPipelineSource_descendants (op : Operator) :
    (m.setPipelineSource op).descendants = m.descendants := rfl

@[simp] theorem addPipelineOperator_descendants (op : Operator) :
    (m.addPipelineOperator op).descendants = m.descendants := rfl

@[simp] theorem addDependency_descendants (d : Nat) :
    (m.addDependency d).descendants = m.descendants := rfl

@[simp] theorem attach_descendants (c : MetaPipeline) :
    (attach m c st).descendants = m.descendants ++ c :: c.descendants := by
  simp only [attach, descendants_pushChild, addDependency_descendants]

theorem builds_frame (h : Builds p m st m' st') :
    m'.base.id = m.base.id ∧ m'.base.sink = m.base.sink ∧ m'.sink = m.sink := by
  induction h with
  | scan | delimScan | cteScan => exact ⟨rfl, rfl, rfl⟩
  | breaker | resultCollector => exact ⟨rfl, rfl, rfl⟩
  | stream _ _ ih => exact ih
  | join _ _ _ ih =>
    rw [closeJoin_base, closeJoin_sink]
    exact ih
  | cte _ _ _ ih => exact ih
  | leftDelimJoin _ _ _ ih => exact ih
  | rightDelimJoin _ _ _ ih =>
    rw [closeJoin_base, closeJoin_sink]
    exact ih

theorem builds_operators (h : Builds p m st m' st') :
    m'.base.operators = m.base.operators ++ p.spine := by
  induction h with
  | scan | delimScan | cteScan | resultCollector => exact (List.append_nil _).symm
  | stream kind _ ih =>
    rw [ih]
    simp [Plan.spine, kind, MetaPipeline.addPipelineOperator]
  | breaker kind _ _ =>
    simp [Plan.spine, kind, attach, MetaPipeline.setPipelineSource, MetaPipeline.addDependency,
      MetaPipeline.pushChild]
  | join _ _ _ ih =>
    rw [closeJoin_base, ih]
    simp [Plan.spine, attach, MetaPipeline.addPipelineOperator, MetaPipeline.addDependency,
      MetaPipeline.pushChild]
  | cte _ _ _ ih => exact ih
  | leftDelimJoin _ _ _ ih => exact ih
  | rightDelimJoin _ _ _ ih =>
    rw [closeJoin_base, ih]
    simp [Plan.spine, attach, MetaPipeline.addPipelineOperator, MetaPipeline.addDependency,
      MetaPipeline.pushChild]

lemma delimDistinct_type {sink distinct : Operator} (h : delimDistinct sink = some distinct) :
    distinct.type = .unary .hashGroupBy := by
  obtain ⟨op, type⟩ := sink
  cases type <;> simp [delimDistinct] at h <;> subst h <;> rfl

/-- A base pipeline has a source, and it is never a join. -/
theorem builds_source (h : Builds p m st m' st') :
    ∃ op, m'.base.source = some op ∧ ∀ kind, op.type ≠ .join kind := by
  induction h with
  | scan | cteScan => exact ⟨_, rfl, by simp⟩
  | delimScan _ aggregate => exact ⟨_, rfl, by simp [delimDistinct_type aggregate]⟩
  | stream _ _ ih => exact ih
  | breaker | resultCollector => exact ⟨_, rfl, by simp⟩
  | join _ _ _ ih => simpa only [closeJoin_base] using ih
  | cte _ _ _ ih => exact ih
  | leftDelimJoin _ _ _ ih => exact ih
  | rightDelimJoin _ _ _ ih => simpa only [closeJoin_base] using ih

end Base

section ChildPipelines

variable {p : Plan} {m m' : MetaPipeline} {st st' : BuildState}

lemma takeWhile_before {pre post : List Operator} {op : Operator}
    (distinct : ((pre ++ op :: post).map Operator.id).Nodup) :
    (pre ++ op :: post).takeWhile (·.id ≠ op.id) = pre := by
  have hpre : ∀ a ∈ pre, decide (a.id ≠ op.id) = true := by
    intro a ha
    simp only [List.map_append, List.map_cons, List.nodup_append, List.mem_cons] at distinct
    simpa using distinct.2.2 a.id (List.mem_map_of_mem ha) op.id (Or.inl rfl)
  rw [List.takeWhile_append_of_pos hpre, List.takeWhile_cons_of_neg (by simp), List.append_nil]

/-- The pipelines added for a spine that starts below the operators `above`. -/
def ChildrenFor (above spine : List Operator) (sink : Option Operator) (new : List Pipeline) :
    Prop :=
  new.map (fun c => (c.operators, c.source)) =
      (sourceSplits spine).map (fun split => (above ++ split.1, some split.2)) ∧
    ∀ c ∈ new, c.sink = sink ∧ c.dependencies = []

/-- A child pipeline runs what lies above the join that is its source. -/
lemma ChildrenFor.split {spine : List Operator} {sink : Option Operator} {new : List Pipeline}
    (children : ChildrenFor [] spine sink new) {c : Pipeline} (hc : c ∈ new) :
    ∃ join, c.source = some join ∧ join.isJoinSource = true ∧
      ∃ rest, spine = c.operators ++ join :: rest := by
  have hview : (c.operators, c.source) ∈ new.map fun c => (c.operators, c.source) :=
    List.mem_map.mpr ⟨c, hc, rfl⟩
  rw [children.1] at hview
  obtain ⟨split, hsplit, heq⟩ := List.mem_map.mp hview
  obtain ⟨hops, hsource⟩ := Prod.mk.inj heq
  obtain ⟨join, rest, hspine⟩ := sourceSplits_split hsplit
  refine ⟨split.2, hsource.symm, join, rest, ?_⟩
  rw [← hops]
  exact hspine

lemma closeJoin_childPipelines {above rest : List Operator} {op : Operator} {last : Nat}
    {old new : List Pipeline} (hops : m.base.operators = above ++ op :: rest)
    (distinct : ((above ++ op :: rest).map Operator.id).Nodup)
    (hnew : m.childPipelines = old ++ new)
    (children : ChildrenFor (above ++ [op]) rest m.base.sink new) :
    ∃ more, (closeJoin op.isJoinSource op last m st).1.childPipelines = old ++ more ∧
      ChildrenFor above (op :: rest) m.base.sink more := by
  obtain ⟨hsplits, hsink⟩ := children
  cases source : op.isJoinSource with
  | false =>
    refine ⟨new, hnew, ?_, hsink⟩
    rw [hsplits]
    simp [sourceSplits, source]
  | true =>
    refine ⟨new ++ [executorCreateChildPipeline m.base op st.nextId], ?_, ?_, ?_⟩
    · simp only [closeJoin, if_true, MetaPipeline.createChildPipeline, hnew, List.append_assoc]
    · rw [List.map_append, hsplits]
      simpa [sourceSplits, source, executorCreateChildPipeline, hops] using
        takeWhile_before distinct
    · intro c hc
      rcases List.mem_append.mp hc with hc | hc
      · exact hsink c hc
      · obtain rfl := List.mem_singleton.mp hc
        exact ⟨rfl, rfl⟩

/-- One child pipeline for each source join of the spine, running what lies above it. -/
theorem builds_childPipelines (h : Builds p m st m' st')
    (distinct : ((m.base.operators ++ p.spine).map Operator.id).Nodup) :
    ∃ new, m'.childPipelines = m.childPipelines ++ new ∧
      ChildrenFor m.base.operators p.spine m.base.sink new := by
  induction h with
  | scan | delimScan | cteScan | resultCollector =>
    exact ⟨[], (List.append_nil _).symm, rfl, by simp⟩
  | stream kind _ ih =>
    simp only [Plan.spine, kind, Bool.false_eq_true, if_false] at distinct ⊢
    obtain ⟨new, hnew, hsplits, hsink⟩ := ih (by
      simpa [MetaPipeline.addPipelineOperator] using distinct)
    refine ⟨new, hnew, ?_, hsink⟩
    rw [hsplits]
    simp [sourceSplits, Operator.isJoinSource, MetaPipeline.addPipelineOperator]
  | breaker kind _ _ =>
    simp only [Plan.spine, kind, if_true]
    exact ⟨[], (List.append_nil _).symm, rfl, by simp⟩
  | join _ probe _ ih =>
    have hops := builds_operators probe
    have hsink := (builds_frame probe).2.1
    simp only [attach, MetaPipeline.addPipelineOperator, MetaPipeline.addDependency,
      MetaPipeline.pushChild, List.append_assoc, List.singleton_append] at hops hsink ih
    obtain ⟨new, hnew, children⟩ := ih distinct
    obtain ⟨more, hmore, all⟩ := closeJoin_childPipelines hops distinct hnew
      (by rw [hsink]; exact children)
    exact ⟨more, hmore, hsink ▸ all⟩
  | cte _ _ _ ih => exact ih distinct
  | leftDelimJoin _ _ _ ih => exact ih distinct
  | rightDelimJoin _ probe _ ih =>
    have hops := builds_operators probe
    have hsink := (builds_frame probe).2.1
    simp only [attach, MetaPipeline.addPipelineOperator, MetaPipeline.addDependency,
      MetaPipeline.pushChild, List.append_assoc, List.singleton_append] at hops hsink ih
    obtain ⟨new, hnew, children⟩ := ih distinct
    obtain ⟨more, hmore, all⟩ := closeJoin_childPipelines hops distinct hnew
      (by rw [hsink]; exact children)
    exact ⟨more, hmore, hsink ▸ all⟩

end ChildPipelines

section Descendants

variable {p : Plan} {m m' : MetaPipeline} {st st' : BuildState}

/-- A meta-pipeline built from scratch for a sink and the subtree that feeds it. -/
def BuiltFor (feed : Operator × Plan) (x : MetaPipeline) : Prop :=
  ∃ st st', Builds feed.2 (startMeta feed.1 st) (advance st) x st'

/-- Below a meta-pipeline stands one for each sink of its plan, in preorder. -/
theorem builds_descendants (h : Builds p m st m' st') :
    ∃ new, m'.descendants = m.descendants ++ new ∧ List.Forall₂ BuiltFor p.feeds new := by
  have start : ∀ (op : Operator) (st : BuildState), (startMeta op st).descendants = [] :=
    fun _ _ => rfl
  induction h with
  | scan | delimScan | cteScan => exact ⟨[], (List.append_nil _).symm, .nil⟩
  | stream kind _ ih => simpa [Plan.feeds, kind] using ih
  | @breaker _ _ _ _ st c st' kind below ih =>
    obtain ⟨new, hnew, built⟩ := ih
    refine ⟨c :: new, ?_, ?_⟩
    · rw [attach_descendants, hnew, start, List.nil_append, setPipelineSource_descendants]
    · simp only [Plan.feeds, kind, if_true]
      exact .cons ⟨st, st', below⟩ built
  | @join _ _ _ _ _ st c st₁ _ _ build _ ihb ihp =>
    obtain ⟨new, hnew, built⟩ := ihb
    obtain ⟨more, hmore, rest⟩ := ihp
    refine ⟨c :: (new ++ more), ?_, .cons ⟨st, st₁, build⟩ (List.rel_append built rest)⟩
    rw [closeJoin_descendants, hmore, attach_descendants, hnew, start]
    simp
  | @cte _ _ _ _ _ st c st₁ _ _ define _ ihd ihq =>
    obtain ⟨new, hnew, built⟩ := ihd
    obtain ⟨more, hmore, rest⟩ := ihq
    refine ⟨c :: (new ++ more), ?_, .cons ⟨st, st₁, define⟩ (List.rel_append built rest)⟩
    rw [hmore, attach_descendants, hnew, start]
    simp
  | @leftDelimJoin _ _ _ _ _ _ _ _ _ st c st₁ _ _ duplicates _ ihl ihr =>
    obtain ⟨new, hnew, built⟩ := ihl
    obtain ⟨more, hmore, rest⟩ := ihr
    refine ⟨c :: (new ++ more), ?_, .cons ⟨st, st₁, duplicates⟩ (List.rel_append built ?_)⟩
    · rw [hmore, attach_descendants, hnew, start]
      simp
    · simpa [Plan.wrappedLeft, Plan.feeds] using rest
  | @rightDelimJoin _ _ _ _ _ _ _ _ _ st c st₁ _ _ duplicates _ ihr ihl =>
    obtain ⟨new, hnew, built⟩ := ihr
    obtain ⟨more, hmore, rest⟩ := ihl
    refine ⟨c :: (new ++ more), ?_, .cons ⟨st, st₁, duplicates⟩ (List.rel_append built rest)⟩
    rw [closeJoin_descendants, hmore, addPipelineOperator_descendants, attach_descendants,
      hnew, start]
    simp
  | @resultCollector _ _ _ st c st' below ih =>
    obtain ⟨new, hnew, built⟩ := ih
    refine ⟨c :: new, ?_, .cons ⟨st, st', below⟩ built⟩
    rw [attach_descendants, hnew, start, List.nil_append, setPipelineSource_descendants]

end Descendants

end PipelineGrowth
