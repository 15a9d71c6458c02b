import SiriusGpu.PipelineSchedule

/-!
# Pipelines and paths of the plan tree

A pipeline runs from a node of the tree up to a sink above it, through what
lies between them. CTE and delim-join nodes are only the sinks of the data they
keep: a pipeline passes through them. A scan of duplicate-eliminated data is
replaced by the aggregate that produces the data.
-/

namespace PipelinePaths

open PhysicalPlan PipelineBuild PipelineGrowth PipelineOrder PipelineReaders PipelineSchedule
open FallibleMaps (bind_ok_iff)

section Tree

/-- The nodes passed on the way down from a node, itself included, to another. -/
inductive TreePath : Plan → List Operator → Plan → Prop
  | here {p} : TreePath p [] p
  | down {p child nodes q} (below : child ∈ p.children) (rest : TreePath child nodes q) :
    TreePath p (p.operator :: nodes) q

/-- Operators that a pipeline through them contains. -/
def isPiped (op : Operator) : Bool :=
  match op.type with
  | .cte _ | .leftDelimJoin _ _ | .rightDelimJoin _ _ _ => false
  | _ => true

/-- The node at which the pipeline through a node has its source. -/
def spineEnd : Plan → Plan
  | p@(.scan _ _) | p@(.delimScan _) | p@(.cteScan _) | p@(.recursiveCteScan _) => p
  | p@(.unary _ unaryType child) => if unaryType.isSink then p else spineEnd child
  | .join _ _ lhs _ => spineEnd lhs
  | .cte _ _ _ query => spineEnd query
  | .leftDelimJoin _ _ _ _ _ _ cachedScan _ => .scan cachedScan .columnDataScan
  | .rightDelimJoin _ _ _ _ _ _ _ lhs => spineEnd lhs
  | p@(.resultCollector _ _) => p

/-- The delim scans of a tree, each with the aggregate of the delim join that lists it. -/
def delimSources : Plan → List (OpId × OpId)
  | .scan _ _ | .delimScan _ | .cteScan _ | .recursiveCteScan _ => []
  | .unary _ _ child => delimSources child
  | .join _ _ lhs rhs => delimSources rhs ++ delimSources lhs
  | .cte _ _ definition query => delimSources definition ++ delimSources query
  | .leftDelimJoin _ distinct delimScans lhs _ _ _ rhs =>
    delimScans.map (·, distinct) ++ (delimSources lhs ++ delimSources rhs)
  | .rightDelimJoin _ distinct delimScans rhs _ _ _ lhs =>
    delimScans.map (·, distinct) ++ (delimSources rhs ++ delimSources lhs)
  | .resultCollector _ plan => delimSources plan

/-- What serves as the source for a node: the node, or the aggregate it stands for. -/
def SourceFor (sources : List (OpId × OpId)) (q : Plan) (source : Operator) : Prop :=
  match q with
  | .delimScan op => ∃ distinct, (op, distinct) ∈ sources ∧
      source = ⟨distinct, .unary .hashGroupBy⟩
  | q => source = q.operator

/-- The way down to the source of the pipeline through a node. -/
def EndPath (p : Plan) : Prop :=
  ∃ nodes, TreePath p nodes (spineEnd p) ∧ nodes.filter isPiped = p.spine

/-- The way down to each operator of the pipeline through a node. -/
def SplitPaths (p : Plan) : Prop :=
  ∀ pre op post, p.spine = pre ++ op :: post →
    ∃ q nodes, TreePath p nodes q ∧ q.operator = op ∧ nodes.filter isPiped = pre

variable {p child : Plan}

lemma EndPath.here (last : spineEnd p = p) (spine : p.spine = []) : EndPath p :=
  ⟨[], by rw [last]; exact .here, spine.symm⟩

lemma EndPath.step (h : EndPath child) (below : child ∈ p.children)
    (last : spineEnd p = spineEnd child) (spine : p.spine = p.operator :: child.spine)
    (piped : isPiped p.operator = true) : EndPath p := by
  obtain ⟨nodes, path, hspine⟩ := h
  refine ⟨p.operator :: nodes, ?_, ?_⟩
  · rw [last]
    exact .down below path
  · rw [List.filter_cons_of_pos piped, hspine, spine]

lemma EndPath.pass (h : EndPath child) (below : child ∈ p.children)
    (last : spineEnd p = spineEnd child) (spine : p.spine = child.spine)
    (piped : isPiped p.operator = false) : EndPath p := by
  obtain ⟨nodes, path, hspine⟩ := h
  refine ⟨p.operator :: nodes, ?_, ?_⟩
  · rw [last]
    exact .down below path
  · rw [List.filter_cons_of_neg (by simp [piped]), hspine, spine]

lemma SplitPaths.none (spine : p.spine = []) : SplitPaths p := by
  intro pre op post h
  rw [spine] at h
  simp at h

lemma SplitPaths.step (h : SplitPaths child) (below : child ∈ p.children)
    (spine : p.spine = p.operator :: child.spine) (piped : isPiped p.operator = true) :
    SplitPaths p := by
  intro pre op post hsplit
  rw [spine] at hsplit
  cases pre with
  | nil =>
    obtain ⟨hop, _⟩ := List.cons.inj hsplit
    exact ⟨p, [], .here, hop, rfl⟩
  | cons a pre =>
    obtain ⟨rfl, hrest⟩ := List.cons.inj hsplit
    obtain ⟨q, nodes, path, hop, hpre⟩ := h pre op post hrest
    exact ⟨q, p.operator :: nodes, .down below path, hop,
      by rw [List.filter_cons_of_pos piped, hpre]⟩

lemma SplitPaths.pass (h : SplitPaths child) (below : child ∈ p.children)
    (spine : p.spine = child.spine) (piped : isPiped p.operator = false) : SplitPaths p := by
  intro pre op post hsplit
  obtain ⟨q, nodes, path, hop, hpre⟩ := h pre op post (spine ▸ hsplit)
  exact ⟨q, p.operator :: nodes, .down below path, hop,
    by rw [List.filter_cons_of_neg (by simp [piped]), hpre]⟩

theorem endPath (p : Plan) : EndPath p := by
  induction p with
  | scan | delimScan | cteScan | recursiveCteScan | resultCollector => exact EndPath.here rfl rfl
  | unary op unaryType child ih =>
    cases kind : unaryType.isSink with
    | true => exact EndPath.here (by simp [spineEnd, kind]) (by simp [Plan.spine, kind])
    | false =>
      exact ih.step (by simp [Plan.children]) (by simp [spineEnd, kind])
        (by simp [Plan.spine, Plan.operator, kind]) rfl
  | join op kind lhs rhs ihl _ => exact ihl.step (by simp [Plan.children]) rfl rfl rfl
  | cte op cteScans definition query _ ihq =>
    exact ihq.pass (by simp [Plan.children]) rfl rfl rfl
  | leftDelimJoin op distinct delimScans lhs joinOp kind cachedScan rhs _ _ =>
    have scan : EndPath (.scan cachedScan .columnDataScan) := EndPath.here rfl rfl
    have join : EndPath (Plan.wrappedLeft joinOp kind cachedScan rhs) :=
      scan.step (by simp [Plan.wrappedLeft, Plan.children]) rfl rfl rfl
    exact join.pass (by simp [Plan.children]) rfl rfl rfl
  | rightDelimJoin op distinct delimScans rhs joinOp kind placeholder lhs _ ihl =>
    have join : EndPath (Plan.wrappedRight joinOp kind placeholder lhs) :=
      ihl.step (by simp [Plan.wrappedRight, Plan.children]) rfl rfl rfl
    exact join.pass (by simp [Plan.children]) rfl rfl rfl

theorem splitPaths (p : Plan) : SplitPaths p := by
  induction p with
  | scan | delimScan | cteScan | recursiveCteScan | resultCollector => exact SplitPaths.none rfl
  | unary op unaryType child ih =>
    cases kind : unaryType.isSink with
    | true => exact SplitPaths.none (by simp [Plan.spine, kind])
    | false =>
      exact ih.step (by simp [Plan.children]) (by simp [Plan.spine, Plan.operator, kind]) rfl
  | join op kind lhs rhs ihl _ => exact ihl.step (by simp [Plan.children]) rfl rfl
  | cte op cteScans definition query _ ihq => exact ihq.pass (by simp [Plan.children]) rfl rfl
  | leftDelimJoin op distinct delimScans lhs joinOp kind cachedScan rhs _ _ =>
    have scan : SplitPaths (.scan cachedScan .columnDataScan) := SplitPaths.none rfl
    have join : SplitPaths (Plan.wrappedLeft joinOp kind cachedScan rhs) :=
      scan.step (by simp [Plan.wrappedLeft, Plan.children]) rfl rfl
    exact join.pass (by simp [Plan.children]) rfl rfl
  | rightDelimJoin op distinct delimScans rhs joinOp kind placeholder lhs _ ihl =>
    have join : SplitPaths (Plan.wrappedRight joinOp kind placeholder lhs) :=
      ihl.step (by simp [Plan.wrappedRight, Plan.children]) rfl rfl
    exact join.pass (by simp [Plan.children]) rfl rfl

/-- A feed is a sink of the tree with one of its children. -/
theorem feeds_path {feed : Operator × Plan} (h : feed ∈ p.feeds) :
    ∃ sink nodes, TreePath p nodes sink ∧ sink.operator = feed.1 ∧ feed.2 ∈ sink.children := by
  have lift : ∀ {p child : Plan}, child ∈ p.children →
      (∃ sink nodes, TreePath child nodes sink ∧ sink.operator = feed.1 ∧
        feed.2 ∈ sink.children) →
      ∃ sink nodes, TreePath p nodes sink ∧ sink.operator = feed.1 ∧ feed.2 ∈ sink.children := by
    rintro p child below ⟨sink, nodes, path, hop, hmem⟩
    exact ⟨sink, p.operator :: nodes, .down below path, hop, hmem⟩
  induction p with
  | scan | delimScan | cteScan | recursiveCteScan => cases h
  | unary op unaryType child ih =>
    cases kind : unaryType.isSink with
    | true =>
      simp only [Plan.feeds, kind, if_true, List.mem_cons] at h
      rcases h with rfl | h
      · exact ⟨_, [], .here, rfl, by simp [Plan.children]⟩
      · exact lift (by simp [Plan.children]) (ih h)
    | false =>
      simp only [Plan.feeds, kind, Bool.false_eq_true, if_false] at h
      exact lift (by simp [Plan.children]) (ih h)
  | join op kind lhs rhs ihl ihr =>
    simp only [Plan.feeds, List.mem_cons, List.mem_append] at h
    rcases h with rfl | h | h
    · exact ⟨_, [], .here, rfl, by simp [Plan.children]⟩
    · exact lift (by simp [Plan.children]) (ihr h)
    · exact lift (by simp [Plan.children]) (ihl h)
  | cte op cteScans definition query ihd ihq =>
    simp only [Plan.feeds, List.mem_cons, List.mem_append] at h
    rcases h with rfl | h | h
    · exact ⟨_, [], .here, rfl, by simp [Plan.children]⟩
    · exact lift (by simp [Plan.children]) (ihd h)
    · exact lift (by simp [Plan.children]) (ihq h)
  | leftDelimJoin op distinct delimScans lhs joinOp kind cachedScan rhs ihl ihr =>
    have wrapped : Plan.wrappedLeft joinOp kind cachedScan rhs ∈
        (Plan.leftDelimJoin op distinct delimScans lhs joinOp kind cachedScan rhs).children := by
      simp [Plan.children]
    have side : rhs ∈ (Plan.wrappedLeft joinOp kind cachedScan rhs).children := by
      simp [Plan.wrappedLeft, Plan.children]
    simp only [Plan.feeds, List.mem_cons, List.mem_append] at h
    rcases h with rfl | h | rfl | h
    · exact ⟨_, [], .here, rfl, by simp [Plan.children]⟩
    · exact lift (by simp [Plan.children]) (ihl h)
    · exact lift wrapped ⟨_, [], .here, rfl, side⟩
    · exact lift wrapped (lift side (ihr h))
  | rightDelimJoin op distinct delimScans rhs joinOp kind placeholder lhs ihr ihl =>
    have wrapped : Plan.wrappedRight joinOp kind placeholder lhs ∈
        (Plan.rightDelimJoin op distinct delimScans rhs joinOp kind placeholder lhs).children := by
      simp [Plan.children]
    have side : lhs ∈ (Plan.wrappedRight joinOp kind placeholder lhs).children := by
      simp [Plan.wrappedRight, Plan.children]
    simp only [Plan.feeds, List.mem_cons, List.mem_append] at h
    rcases h with rfl | h | h
    · exact ⟨_, [], .here, rfl, by simp [Plan.children]⟩
    · exact lift (by simp [Plan.children]) (ihr h)
    · exact lift wrapped (lift side (ihl h))
  | resultCollector op plan ih =>
    simp only [Plan.feeds, List.mem_cons] at h
    rcases h with rfl | h
    · exact ⟨_, [], .here, rfl, by simp [Plan.children]⟩
    · exact lift (by simp [Plan.children]) (ih h)

end Tree

section Sources

variable {p : Plan} {m m' : MetaPipeline} {st st' : BuildState} {sources : List (OpId × OpId)}

/-- The build state knows no delim scan but those of the tree, with their aggregates. -/
def EntriesIn (sources : List (OpId × OpId)) (st : BuildState) : Prop :=
  ∀ op id sink, (op, id, sink) ∈ st.delimJoinDependencies → ∃ distinct,
    delimDistinct sink = some ⟨distinct, .unary .hashGroupBy⟩ ∧ (op, distinct) ∈ sources

lemma EntriesIn.delimScans (h : EntriesIn sources st) {scans : List OpId} {distinct : OpId}
    (sub : ∀ op ∈ scans, (op, distinct) ∈ sources) (pipeline : Nat) {sink : Operator}
    (hsink : delimDistinct sink = some ⟨distinct, .unary .hashGroupBy⟩) :
    EntriesIn sources (registerDelimScans scans pipeline sink st) := by
  intro op id sink' hmem
  rcases List.mem_append.mp hmem with hmem | hmem
  · exact h op id sink' hmem
  · obtain ⟨a, ha, heq⟩ := List.mem_map.mp hmem
    cases heq
    exact ⟨distinct, hsink, sub _ ha⟩

def HasSource (sources : List (OpId × OpId)) (p : Plan) (m : MetaPipeline) : Prop :=
  ∃ source, m.base.source = some source ∧ SourceFor sources (spineEnd p) source

/-- A build leaves the entries in order and gives all its base pipelines their sources. -/
structure Sourced (sources : List (OpId × OpId)) (p : Plan) (m m' : MetaPipeline)
    (st' : BuildState) : Prop where
  entries : EntriesIn sources st'
  base : HasSource sources p m'
  below : ∃ new, m'.descendants = m.descendants ++ new ∧
    List.Forall₂ (fun feed x => HasSource sources feed.2 x) p.feeds new

lemma Sourced.node {op : Operator} {q : Plan} {c m₁ : MetaPipeline} {st₁ : BuildState}
    (child : Sourced sources q (startMeta op st) c st₁)
    (attached : m₁.descendants = m.descendants ++ c :: c.descendants)
    (tail : Sourced sources p m₁ m' st') :
    ∃ new, m'.descendants = m.descendants ++ new ∧
      List.Forall₂ (fun feed x => HasSource sources feed.2 x)
        ((op, q) :: (q.feeds ++ p.feeds)) new := by
  obtain ⟨new, hnew, hchild⟩ := child.below
  obtain ⟨rest, hrest, htail⟩ := tail.below
  have hbelow : c.descendants = new := hnew
  refine ⟨c :: (new ++ rest), ?_, .cons child.base (List.rel_append hchild htail)⟩
  rw [hrest, attached, hbelow]
  simp

lemma Sourced.breaker {op : Operator} {q : Plan} {c m₁ : MetaPipeline} {st₁ : BuildState}
    (child : Sourced sources q (startMeta op st) c st₁)
    (attached : m₁.descendants = m.descendants ++ c :: c.descendants)
    (base : HasSource sources p m₁) (feeds : p.feeds = (op, q) :: q.feeds) :
    Sourced sources p m m₁ st₁ := by
  obtain ⟨new, hnew, hchild⟩ := child.below
  have hbelow : c.descendants = new := hnew
  refine ⟨child.entries, base, c :: new, ?_, ?_⟩
  · rw [attached, hbelow]
  · rw [feeds]
    exact .cons child.base hchild

lemma EntriesIn.closeJoin (h : EntriesIn sources st) (source : Bool) (op : Operator)
    (last : Nat) : EntriesIn sources (closeJoin source op last m st).2 := by
  cases source <;> exact h

theorem builds_sourced (h : Builds p m st m' st') (sub : delimSources p ⊆ sources)
    (entries : EntriesIn sources st) : Sourced sources p m m' st' := by
  induction h with
  | scan =>
    exact ⟨entries, ⟨_, rfl, rfl⟩, [], (List.append_nil _).symm, .nil⟩
  | @delimScan op pipeline sink distinct _ _ entry aggregate =>
    obtain ⟨distinct', hsink, hmem⟩ := entries _ _ _ (lookup_mem entry)
    obtain rfl := Option.some.inj (aggregate.symm.trans hsink)
    exact ⟨entries, ⟨_, rfl, distinct', hmem, rfl⟩, [], (List.append_nil _).symm, .nil⟩
  | cteScan =>
    exact ⟨entries, ⟨_, rfl, rfl⟩, [], (List.append_nil _).symm, .nil⟩
  | stream kind _ ih =>
    obtain ⟨entries', base, below⟩ := ih sub entries
    refine ⟨entries', by simpa [HasSource, spineEnd, kind] using base, ?_⟩
    simpa [Plan.feeds, kind] using below
  | breaker kind _ ih =>
    refine (ih sub entries).breaker (attach_descendants _) ⟨_, rfl, ?_⟩
      (by simp [Plan.feeds, kind])
    simp [spineEnd, kind, SourceFor, Plan.operator]
  | @join op kind lhs rhs m st c st₁ m₂ st₂ _ _ ihb ihp =>
    have child := ihb (fun x hx => sub (List.mem_append_left _ hx)) entries
    have tail := ihp (fun x hx => sub (List.mem_append_right _ hx)) child.entries
    have attached : (attach (m.addPipelineOperator ⟨op, .join kind⟩) c st).descendants =
        m.descendants ++ c :: c.descendants := by
      rw [attach_descendants, addPipelineOperator_descendants]
    refine ⟨tail.entries.closeJoin _ _ _, ?_, ?_⟩
    · simpa [HasSource, spineEnd] using tail.base
    · simpa [Plan.feeds] using child.node attached tail
  | @cte op cteScans definition query m st c st₁ m' st' _ _ ihd ihq =>
    have child := ihd (fun x hx => sub (List.mem_append_left _ hx)) entries
    have tail := ihq (fun x hx => sub (List.mem_append_right _ hx)) child.entries
    exact ⟨tail.entries, tail.base, child.node (attach_descendants c) tail⟩
  | @leftDelimJoin op distinct delimScans lhs joinOp kind cachedScan rhs m st c st₁ m' st'
      _ _ ihl ihr =>
    simp only [delimSources, List.append_subset] at sub
    have child := ihl sub.2.1 entries
    have tail := ihr (by simpa [Plan.wrappedLeft, delimSources] using sub.2.2)
      (child.entries.delimScans (fun scan hscan => sub.1 (List.mem_map.mpr ⟨scan, hscan, rfl⟩))
        _ rfl)
    refine ⟨tail.entries, tail.base, ?_⟩
    simpa [Plan.wrappedLeft, Plan.feeds] using child.node (attach_descendants c) tail
  | @rightDelimJoin op distinct delimScans rhs joinOp joinType placeholder lhs m st c st₁ m₂ st₂
      _ _ ihr ihl =>
    simp only [delimSources, List.append_subset] at sub
    have child := ihr sub.2.1 entries
    have tail := ihl sub.2.2
      (child.entries.delimScans (fun scan hscan => sub.1 (List.mem_map.mpr ⟨scan, hscan, rfl⟩))
        _ rfl)
    have attached : ((attach m c st).addPipelineOperator
        ⟨joinOp, .join (.hashJoin joinType)⟩).descendants =
          m.descendants ++ c :: c.descendants := by
      rw [addPipelineOperator_descendants, attach_descendants]
    refine ⟨tail.entries.closeJoin _ _ _, ?_, ?_⟩
    · simpa [HasSource, spineEnd] using tail.base
    · simpa [Plan.feeds] using child.node attached tail
  | resultCollector _ ih =>
    exact (ih sub entries).breaker (attach_descendants _) ⟨_, rfl, rfl⟩ rfl

end Sources

section Coverage

/-- The scans that stand for a right delim join's own child in the join it wraps. -/
def placeholders : Plan → List Operator
  | .scan _ _ | .delimScan _ | .cteScan _ | .recursiveCteScan _ => []
  | .unary _ _ child => placeholders child
  | .join _ _ lhs rhs => placeholders rhs ++ placeholders lhs
  | .cte _ _ definition query => placeholders definition ++ placeholders query
  | .leftDelimJoin _ _ _ lhs _ _ _ rhs => placeholders lhs ++ placeholders rhs
  | .rightDelimJoin _ _ _ rhs _ _ placeholder lhs =>
    ⟨placeholder, .scan .dummyScan⟩ :: (placeholders rhs ++ placeholders lhs)
  | .resultCollector _ plan => placeholders plan

/-- The operator is part of the pipeline through the node, or of one below it. -/
def Covered (p : Plan) (op : Operator) : Prop :=
  op ∈ p.spine ∨ op = (spineEnd p).operator ∨ ∃ feed ∈ p.feeds,
    op = feed.1 ∨ op ∈ feed.2.spine ∨ op = (spineEnd feed.2).operator

variable {p : Plan} {op : Operator}

lemma Covered.below {q : Plan} {sink : Operator} (h : Covered q op)
    (feeds : (sink, q) ∈ p.feeds) (sub : q.feeds ⊆ p.feeds) : Covered p op := by
  rcases h with h | h | ⟨feed, hfeed, h⟩
  · exact Or.inr (Or.inr ⟨_, feeds, Or.inr (Or.inl h)⟩)
  · exact Or.inr (Or.inr ⟨_, feeds, Or.inr (Or.inr h)⟩)
  · exact Or.inr (Or.inr ⟨feed, sub hfeed, h⟩)

lemma Covered.along {q : Plan} (h : Covered q op) (spine : q.spine ⊆ p.spine)
    (last : spineEnd p = spineEnd q) (sub : q.feeds ⊆ p.feeds) : Covered p op := by
  rcases h with h | h | ⟨feed, hfeed, h⟩
  · exact Or.inl (spine h)
  · exact Or.inr (Or.inl (by rw [last, h]))
  · exact Or.inr (Or.inr ⟨feed, sub hfeed, h⟩)

lemma Covered.sink {q : Plan} {sink : Operator} (feeds : (sink, q) ∈ p.feeds) :
    Covered p sink :=
  Or.inr (Or.inr ⟨_, feeds, Or.inl rfl⟩)

lemma covered_self (p : Plan) : Covered p p.operator := by
  cases p with
  | scan | delimScan | cteScan | recursiveCteScan | resultCollector => exact Or.inr (Or.inl rfl)
  | unary op unaryType child =>
    cases kind : unaryType.isSink with
    | true => exact Or.inr (Or.inl (by simp [spineEnd, kind]))
    | false => exact Or.inl (by simp [Plan.spine, Plan.operator, kind])
  | join op kind lhs rhs => exact Or.inl (by simp [Plan.spine, Plan.operator])
  | cte op cteScans definition query => exact Covered.sink List.mem_cons_self
  | leftDelimJoin => exact Covered.sink List.mem_cons_self
  | rightDelimJoin => exact Covered.sink List.mem_cons_self

/-- One step down the tree: what is covered below a node is covered at it. -/
lemma covered_step {child : Plan} (below : child ∈ p.children)
    (h : Covered child op ∨ op ∈ placeholders child) : Covered p op ∨ op ∈ placeholders p := by
  cases p with
  | scan | delimScan | cteScan | recursiveCteScan => cases below
  | unary id unaryType q =>
    obtain rfl := List.mem_singleton.mp below
    refine h.imp ?_ (fun h => h)
    intro h
    cases kind : unaryType.isSink with
    | true =>
      have feeds : ((⟨id, .unary unaryType⟩ : Operator), child) ∈
          (Plan.unary id unaryType child).feeds := by simp [Plan.feeds, kind]
      exact h.below feeds (by simp [Plan.feeds, kind])
    | false =>
      exact h.along (by simp [Plan.spine, kind]) (by simp [spineEnd, kind])
        (by simp [Plan.feeds, kind])
  | join id kind lhs rhs =>
    rcases List.mem_cons.mp below with rfl | below
    · refine h.imp (fun h => h.along ?_ rfl ?_) (List.mem_append_right _)
      · exact List.subset_cons_self _ _
      · simp [Plan.feeds]
    · obtain rfl := List.mem_singleton.mp below
      refine h.imp (fun h => h.below List.mem_cons_self ?_) (List.mem_append_left _)
      simp [Plan.feeds]
  | cte id cteScans definition query =>
    rcases List.mem_cons.mp below with rfl | below
    · refine h.imp (fun h => h.below List.mem_cons_self ?_) (List.mem_append_left _)
      simp [Plan.feeds]
    · obtain rfl := List.mem_singleton.mp below
      refine h.imp (fun h => h.along (fun _ h => h) rfl ?_) (List.mem_append_right _)
      simp [Plan.feeds]
  | leftDelimJoin id distinct delimScans lhs joinOp kind cachedScan rhs =>
    rcases List.mem_cons.mp below with rfl | below
    · refine h.imp (fun h => h.below List.mem_cons_self ?_) (List.mem_append_left _)
      simp [Plan.feeds]
    · obtain rfl := List.mem_singleton.mp below
      rcases h with h | h
      · refine Or.inl (h.along (fun _ h => h) rfl ?_)
        simp [Plan.wrappedLeft, Plan.feeds]
      · simp only [Plan.wrappedLeft, placeholders, List.append_nil] at h
        exact Or.inr (List.mem_append_right _ h)
  | rightDelimJoin id distinct delimScans rhs joinOp kind placeholder lhs =>
    rcases List.mem_cons.mp below with rfl | below
    · rcases h with h | h
      · refine Or.inl (h.below List.mem_cons_self ?_)
        simp [Plan.feeds]
      · exact Or.inr (List.mem_cons_of_mem _ (List.mem_append_left _ h))
    · obtain rfl := List.mem_singleton.mp below
      rcases h with (h | h | ⟨feed, hfeed, h⟩) | h
      · exact Or.inl (Or.inl h)
      · exact Or.inl (Or.inr (Or.inl h))
      · -- the wrapped join's own build side is the placeholder
        rcases List.mem_cons.mp hfeed with rfl | hfeed
        · rcases h with rfl | h | rfl
          · exact Or.inl (Or.inl List.mem_cons_self)
          · cases h
          · exact Or.inr List.mem_cons_self
        · refine Or.inl (Or.inr (Or.inr ⟨feed, ?_, h⟩))
          exact List.mem_cons_of_mem _ (List.mem_append_right _ hfeed)
      · simp only [Plan.wrappedRight, placeholders, List.nil_append] at h
        exact Or.inr (List.mem_cons_of_mem _ (List.mem_append_right _ h))
  | resultCollector id plan =>
    obtain rfl := List.mem_singleton.mp below
    refine h.imp (fun h => h.below List.mem_cons_self ?_) (fun h => h)
    simp [Plan.feeds]

theorem covered_of_path {q : Plan} {nodes : List Operator} (h : TreePath p nodes q) :
    Covered p q.operator ∨ q.operator ∈ placeholders p := by
  induction h with
  | here => exact Or.inl (covered_self _)
  | down below _ ih => exact covered_step below ih

end Coverage

section Decomposition

lemma forall₂_mem_left {α β : Type} {R : α → β → Prop} {xs : List α} {ys : List β}
    (h : List.Forall₂ R xs ys) {a : α} (ha : a ∈ xs) : ∃ b ∈ ys, R a b :=
  let ⟨b, hb, r⟩ := forall₂_mem_right h.flip ha
  ⟨b, hb, r⟩

variable {plan top : Plan} {sink : Option Operator} {x root : MetaPipeline}
  {sources : List (OpId × OpId)}

/-- The pipelines of a group, before `Ready`, as the tree below its sink has them. -/
structure PathGroup (sources : List (OpId × OpId)) (top : Plan) (sink : Option Operator)
    (x : MetaPipeline) : Prop where
  metaSink : x.sink = sink
  operators : x.base.operators = top.spine
  baseSink : x.base.sink = sink
  source : HasSource sources top x
  distinct : top.spine.Nodup
  children : ChildrenFor [] top.spine sink x.childPipelines

/-- From the source up to the sink: `top` is the child of the sink the pipeline feeds. -/
structure Follows (sources : List (OpId × OpId)) (top : Plan) (sink : Option Operator)
    (p : Pipeline) : Prop where
  sink : p.sink = sink
  path : ∃ q nodes source, TreePath top nodes q ∧ p.source = some source ∧
    SourceFor sources q source ∧ p.operators = (nodes.filter isPiped).reverse

lemma sourceFor_join {q : Plan} {op : Operator} (h : q.operator = op)
    (join : op.isJoinSource = true) : SourceFor sources q op := by
  subst h
  cases q with
  | delimScan => cases join
  | _ => rfl

theorem PathGroup.follows (g : PathGroup sources top sink x) {p : Pipeline}
    (hp : p ∈ x.pipelines) : Follows sources top sink p.ready := by
  rcases List.mem_cons.mp hp with rfl | hp
  · refine ⟨g.baseSink, ?_⟩
    obtain ⟨nodes, path, hspine⟩ := endPath top
    obtain ⟨source, hsource, hfor⟩ := g.source
    refine ⟨spineEnd top, nodes, source, path, hsource, hfor, ?_⟩
    rw [hspine, ← g.operators]
    rfl
  · refine ⟨(g.children.2 p hp).1, ?_⟩
    obtain ⟨join, hsource, isSource, rest, hspine⟩ := g.children.split hp
    obtain ⟨q, nodes, path, hop, hpre⟩ := splitPaths top _ _ _ hspine
    refine ⟨q, nodes, join, path, hsource, sourceFor_join hop isSource, ?_⟩
    rw [hpre]
    rfl

lemma PathGroup.once (g : PathGroup sources top sink x) {p : Pipeline} (hp : p ∈ x.pipelines) :
    p.ready.operators.Nodup := by
  refine List.nodup_reverse.mpr ?_
  rcases List.mem_cons.mp hp with rfl | hp
  · rw [g.operators]
    exact g.distinct
  · obtain ⟨_, _, _, rest, hspine⟩ := g.children.split hp
    exact g.distinct.sublist (hspine ▸ List.sublist_append_left _ _)

/-- A group below the root belongs to a sink of the tree, the root group to none. -/
def OfSink (plan : Plan) (sink : Option Operator) (top : Plan) : Prop :=
  match sink with
  | none => top = plan
  | some op => ∃ node nodes, TreePath plan nodes node ∧ node.operator = op ∧ top ∈ node.children

/-- The pipelines of a plan and its tree. -/
structure Decomposed (plan : Plan) (root : MetaPipeline) : Prop where
  follows : ∀ m ∈ getMetaPipelines root true false, ∃ top, OfSink plan m.sink top ∧
    ∀ p ∈ m.pipelines, Follows (delimSources plan) top m.sink p
  child : ∀ m ∈ getMetaPipelines root true false, ∀ c ∈ m.childPipelines, ∃ join below,
    join.isJoinSource = true ∧ c.source = some join ∧
      m.base.operators = below ++ join :: c.operators
  once : ∀ m ∈ getMetaPipelines root true false, ∀ p ∈ m.pipelines, p.operators.Nodup
  covered : ∀ nodes q, TreePath plan nodes q → (∀ op, q ≠ .delimScan op) →
    q.operator ∉ placeholders plan → ∃ m ∈ getMetaPipelines root true false,
      ∃ p ∈ m.pipelines, p.source = some q.operator ∨ q.operator ∈ p.operators ∨
        p.sink = some q.operator

lemma operator_notDelimScan {p q : Plan} (h : p.operator = q.operator)
    (hq : ∀ op, q ≠ .delimScan op) : ∀ op, p ≠ .delimScan op := by
  rintro op rfl
  cases q with
  | delimScan op' => exact hq op' rfl
  | _ => simp [Plan.operator] at h

lemma PathGroup.covers (g : PathGroup sources top sink x) {q : Plan}
    (hq : ∀ op, q ≠ .delimScan op)
    (h : q.operator ∈ top.spine ∨ q.operator = (spineEnd top).operator) :
    x.base.ready.source = some q.operator ∨ q.operator ∈ x.base.ready.operators := by
  rcases h with h | h
  · refine Or.inr (List.mem_reverse.mpr ?_)
    rwa [g.operators]
  · obtain ⟨source, hsource, hfor⟩ := g.source
    have notDelim := operator_notDelimScan h.symm hq
    refine Or.inl ?_
    rw [h]
    cases last : spineEnd top with
    | delimScan op => exact absurd last (notDelim op)
    | _ =>
      rw [last] at hfor
      exact hsource.trans (congrArg some hfor)

lemma pathGroups_of_builds (wf : plan.WellFormed) {st : BuildState}
    (h : Builds plan (createMetaPipeline none 0) ⟨1, [], []⟩ root st) :
    PathGroup (delimSources plan) plan none root ∧
      List.Forall₂ (fun feed y => PathGroup (delimSources plan) feed.2 (some feed.1) y)
        plan.feeds root.descendants := by
  have start : (createMetaPipeline none 0).descendants = [] := rfl
  have sourced := builds_sourced h (fun _ h => h) (by simp [EntriesIn])
  have metas := planMetas_of_builds wf h
  constructor
  · obtain ⟨_, hbase, hsink⟩ := builds_frame h
    have spines := wf.spines_nodup
    rw [Plan.allSpines, List.map_append] at spines
    have distinct := (List.nodup_append.mp spines).1
    obtain ⟨new, hnew, children⟩ := builds_childPipelines h (by
      simpa [createMetaPipeline] using distinct)
    have hchildren : root.childPipelines = new := hnew
    refine ⟨hsink, builds_operators h, hbase, sourced.base, List.Nodup.of_map _ distinct, ?_⟩
    rw [hchildren]
    exact children
  · obtain ⟨new, hnew, hall⟩ := sourced.below
    rw [start, List.nil_append] at hnew
    rw [hnew]
    refine List.Forall₂.imp ?_ (forall₂_both hall (hnew ▸ metas.groups))
    rintro feed y ⟨source, group, _⟩
    exact ⟨group.sink, group.operators, group.baseSink, source, group.distinct, group.children⟩

/-- Every plan in scope is built, and what is built follows the tree. -/
theorem buildPlan_decomposed (wf : plan.WellFormed) :
    (plan.Scoped [] [] → ∃ root, buildPlan plan = .ok root) ∧
      ∀ root, buildPlan plan = .ok root → Decomposed plan root := by
  constructor
  · intro inScope
    obtain ⟨root, st, _, hplan⟩ := buildPlan_total inScope
    exact ⟨root.ready, hplan⟩
  · intro built hbuilt
    obtain ⟨⟨root, st⟩, hbuild, hready⟩ := bind_ok_iff.mp hbuilt
    obtain rfl : root.ready = built := Except.ok.inj hready
    obtain ⟨top, below⟩ := pathGroups_of_builds wf (buildPipelines_builds hbuild)
    have hms : getMetaPipelines root.ready true false =
        (root :: root.descendants).map MetaPipeline.ready := by
      simp [getMetaPipelines, descendants_ready]
    -- every group, the root's included, with the subtree it is built for
    have groups : ∀ m ∈ root :: root.descendants, ∃ p, OfSink plan m.sink p ∧
        PathGroup (delimSources plan) p m.sink m := by
      intro m hm
      rcases List.mem_cons.mp hm with rfl | hm
      · rw [top.metaSink]
        exact ⟨plan, rfl, top⟩
      · obtain ⟨feed, hfeed, group⟩ := forall₂_mem_right below hm
        rw [group.metaSink]
        obtain ⟨node, nodes, path, hop, hmem⟩ := feeds_path hfeed
        exact ⟨feed.2, ⟨node, nodes, path, hop, hmem⟩, group⟩
    have ready : ∀ m ∈ getMetaPipelines root.ready true false,
        ∃ x ∈ root :: root.descendants, m = x.ready := by
      intro m hm
      rw [hms] at hm
      obtain ⟨x, hx, rfl⟩ := List.mem_map.mp hm
      exact ⟨x, hx, rfl⟩
    have base : ∀ x ∈ root :: root.descendants,
        x.ready ∈ getMetaPipelines root.ready true false ∧ x.base.ready ∈ x.ready.pipelines := by
      intro x hx
      rw [hms, ready_pipelines]
      exact ⟨List.mem_map.mpr ⟨x, hx, rfl⟩, List.mem_cons_self⟩
    constructor
    · intro m hm
      obtain ⟨x, hx, rfl⟩ := ready m hm
      obtain ⟨p, ofSink, group⟩ := groups x hx
      rw [ready_sink, ready_pipelines]
      refine ⟨p, ofSink, ?_⟩
      intro q hq
      obtain ⟨q₀, hq₀, rfl⟩ := List.mem_map.mp hq
      exact group.follows hq₀
    · intro m hm c hc
      obtain ⟨x, hx, rfl⟩ := ready m hm
      obtain ⟨p, _, group⟩ := groups x hx
      obtain ⟨c₀, hc₀, rfl⟩ : ∃ c₀ ∈ x.childPipelines, c₀.ready = c := by
        cases x
        exact List.mem_map.mp hc
      obtain ⟨join, hsource, isSource, rest, hspine⟩ := group.children.split hc₀
      refine ⟨join, rest.reverse, isSource, hsource, ?_⟩
      rw [ready_base]
      simp [Pipeline.ready, group.operators, hspine]
    · intro m hm p hp
      obtain ⟨x, hx, rfl⟩ := ready m hm
      obtain ⟨_, _, group⟩ := groups x hx
      rw [ready_pipelines] at hp
      obtain ⟨p₀, hp₀, rfl⟩ := List.mem_map.mp hp
      exact group.once hp₀
    · intro nodes q path notDelim notPlaceholder
      rcases covered_of_path path with covered | placeholder
      · rcases covered with h | h | ⟨feed, hfeed, h⟩
        · obtain ⟨hm, hb⟩ := base root List.mem_cons_self
          exact ⟨_, hm, _, hb, (top.covers notDelim (Or.inl h)).imp_right Or.inl⟩
        · obtain ⟨hm, hb⟩ := base root List.mem_cons_self
          exact ⟨_, hm, _, hb, (top.covers notDelim (Or.inr h)).imp_right Or.inl⟩
        · obtain ⟨y, hy, group⟩ := forall₂_mem_left below hfeed
          obtain ⟨hm, hb⟩ := base y (List.mem_cons_of_mem _ hy)
          refine ⟨_, hm, _, hb, ?_⟩
          rcases h with h | h
          · exact Or.inr (Or.inr (by rw [h]; exact group.baseSink))
          · exact (group.covers notDelim h).imp_right Or.inl
      · exact False.elim (notPlaceholder placeholder)

/-- A CTE above the projection that reads it. -/
def projectedCte : Plan :=
  .resultCollector 0 (.cte 1 [4] (.scan 2 .tableScan) (.unary 3 .projection (.cteScan 4)))

/-- A right delim join whose data is scanned on the probe side of the wrapped join. -/
def scannedDelim : Plan :=
  .resultCollector 0 (.rightDelimJoin 1 2 [6] (.scan 3 .tableScan) 4 (.hashJoin .rightSemi) 5
    (.delimScan 6))

theorem scannedDelim_decomposed :
    ∃ root, buildPlan scannedDelim = .ok root ∧ Decomposed scannedDelim root := by
  have wf : scannedDelim.WellFormed := by decide
  obtain ⟨root, built⟩ := (buildPlan_decomposed wf).1 (by simp [scannedDelim, Plan.Scoped])
  exact ⟨root, built, (buildPlan_decomposed wf).2 root built⟩

lemma projectedCte_children {top : Plan}
    (h : OfSink projectedCte (some ⟨0, .resultCollector⟩) top) :
    top.operator = ⟨1, .cte [4]⟩ := by
  obtain ⟨node, nodes, path, hop, hmem⟩ := h
  cases path with
  | here =>
    obtain rfl := List.mem_singleton.mp hmem
    rfl
  | down below rest =>
    obtain rfl := List.mem_singleton.mp below
    cases rest with
    | here => cases hop
    | down below rest =>
      rcases List.mem_cons.mp below with rfl | below
      · cases rest with
        | here => cases hop
        | down below _ => cases below
      · obtain rfl := List.mem_singleton.mp below
        cases rest with
        | here => cases hop
        | down below rest =>
          obtain rfl := List.mem_singleton.mp below
          cases rest with
          | here => cases hop
          | down below _ => cases below

/-- A node between source and sink may be in no pipeline as an operator, and a node of the
tree in no pipeline at all: a CTE, a delim scan, the placeholder of a right delim join. -/
theorem not_every_node_piped :
    (¬ ∀ plan : Plan, plan.WellFormed → ∀ root, buildPlan plan = .ok root →
      ∀ m ∈ getMetaPipelines root true false, ∃ top, OfSink plan m.sink top ∧
        ∀ p ∈ m.pipelines, ∃ q nodes, TreePath top nodes q ∧ p.source = some q.operator ∧
          p.operators = nodes.reverse) ∧
    (¬ ∀ plan : Plan, plan.WellFormed → ∀ root, buildPlan plan = .ok root →
      ∀ nodes q, TreePath plan nodes q → (∀ op, q ≠ .delimScan op) →
        ∃ m ∈ getMetaPipelines root true false, ∃ p ∈ m.pipelines,
          p.source = some q.operator ∨ q.operator ∈ p.operators ∨ p.sink = some q.operator) ∧
    ¬ ∀ plan : Plan, plan.WellFormed → ∀ root, buildPlan plan = .ok root →
      ∀ nodes q, TreePath plan nodes q → q.operator ∉ placeholders plan →
        ∃ m ∈ getMetaPipelines root true false, ∃ p ∈ m.pipelines,
          p.source = some q.operator ∨ q.operator ∈ p.operators ∨ p.sink = some q.operator := by
  refine ⟨?_, ?_, ?_⟩
  · intro every
    obtain ⟨top, ofSink, follows⟩ := every projectedCte (by decide) _ rfl _
      (List.mem_cons_of_mem _ List.mem_cons_self)
    have htop := projectedCte_children ofSink
    obtain ⟨q, nodes, path, hsource, hops⟩ := follows _ List.mem_cons_self
    cases path with
    | here =>
      rw [htop] at hsource
      revert hsource
      decide
    | down _ _ =>
      rw [htop] at hops
      have hmem : (⟨1, .cte [4]⟩ : Operator) ∈ [(⟨3, .unary .projection⟩ : Operator)] := by
        rw [show [(⟨3, .unary .projection⟩ : Operator)] = _ from hops]
        simp
      revert hmem
      decide
  · intro every
    have path : TreePath scannedDelim _ (.scan 5 .dummyScan) :=
      .down List.mem_cons_self (.down (List.mem_cons_of_mem _ List.mem_cons_self)
        (.down (List.mem_cons_of_mem _ List.mem_cons_self) .here))
    have covered := every scannedDelim (by decide) _ rfl _ _ path (by simp)
    revert covered
    decide
  · intro every
    have path : TreePath scannedDelim _ (.delimScan 6) :=
      .down List.mem_cons_self (.down (List.mem_cons_of_mem _ List.mem_cons_self)
        (.down List.mem_cons_self .here))
    have covered := every scannedDelim (by decide) _ rfl _ _ path (by decide)
    revert covered
    decide

end Decomposition

end PipelinePaths
