import Mathlib.Data.List.Nodup
import Mathlib.Data.List.Perm.Subperm

/-!
# Physical plans

The plan tree the executor receives. An operator is an object with an identity
and the class data that pipeline building, scheduling and execution read;
expressions, types and estimates are left out. A delim join owns the join it
wraps: one child of that join is replaced by a scan that stays in its place.
-/

namespace PhysicalPlan

abbrev OpId := Nat

inductive JoinType
  | left | right | inner | outer | semi | anti | mark | single | rightSemi | rightAnti
  deriving DecidableEq, Repr

inductive JoinKind
  | hashJoin (joinType : JoinType)
  | nestedLoopJoin (joinType : JoinType)
  deriving DecidableEq, Repr

inductive ScanType
  | tableScan | dummyScan | emptyResult | columnDataScan
  deriving DecidableEq, Repr

inductive UnaryType
  | filter | projection | streamingLimit
  | orderBy | topN | hashGroupBy | ungroupedAggregate
  deriving DecidableEq, Repr

/-- The classes of operators, with what other operators read of them by cast. -/
inductive OperatorType
  | scan (scanType : ScanType)
  | delimScan | cteScan | recursiveCteScan
  | unary (unaryType : UnaryType)
  | join (kind : JoinKind)
  | cte (cteScans : List OpId)
  | leftDelimJoin (distinct cachedScan : OpId)
  | rightDelimJoin (distinct join : OpId) (kind : JoinKind)
  | resultCollector
  deriving DecidableEq, Repr

structure Operator where
  id : OpId
  type : OperatorType
  deriving DecidableEq, Repr

/-- DuckDB's own predicate on join types, read by the nested-loop join. -/
def propagatesBuildSide : JoinType → Bool
  | .outer | .right | .rightSemi | .rightAnti => true
  | _ => false

/-- `IsSource` of the two join classes: a hash join always says yes. -/
def JoinKind.isSource : JoinKind → Bool
  | .hashJoin _ => true
  | .nestedLoopJoin joinType => propagatesBuildSide joinType

/-- `IsSink` of the operators that keep the default `BuildPipelines`. -/
def UnaryType.isSink : UnaryType → Bool
  | .filter | .projection | .streamingLimit => false
  | .orderBy | .topN | .hashGroupBy | .ungroupedAggregate => true

inductive Plan
  | scan (op : OpId) (scanType : ScanType)
  | delimScan (op : OpId)
  | cteScan (op : OpId)
  | recursiveCteScan (op : OpId)
  | unary (op : OpId) (unaryType : UnaryType) (child : Plan)
  | join (op : OpId) (kind : JoinKind) (lhs rhs : Plan)
  | cte (op : OpId) (cteScans : List OpId) (definition query : Plan)
  | leftDelimJoin (op distinct : OpId) (delimScans : List OpId) (lhs : Plan)
      (joinOp : OpId) (kind : JoinKind) (cachedScan : OpId) (rhs : Plan)
  | rightDelimJoin (op distinct : OpId) (delimScans : List OpId) (rhs : Plan)
      (joinOp : OpId) (kind : JoinKind) (placeholder : OpId) (lhs : Plan)
  | resultCollector (op : OpId) (plan : Plan)
  deriving DecidableEq, Repr

namespace Plan

def operator : Plan → Operator
  | scan op scanType => ⟨op, .scan scanType⟩
  | delimScan op => ⟨op, .delimScan⟩
  | cteScan op => ⟨op, .cteScan⟩
  | recursiveCteScan op => ⟨op, .recursiveCteScan⟩
  | unary op unaryType _ => ⟨op, .unary unaryType⟩
  | join op kind _ _ => ⟨op, .join kind⟩
  | cte op cteScans _ _ => ⟨op, .cte cteScans⟩
  | leftDelimJoin op distinct _ _ _ _ cachedScan _ => ⟨op, .leftDelimJoin distinct cachedScan⟩
  | rightDelimJoin op distinct _ _ joinOp kind _ _ => ⟨op, .rightDelimJoin distinct joinOp kind⟩
  | resultCollector op _ => ⟨op, .resultCollector⟩

/-- The join a delim join wraps, with the scan that replaced one of its children. -/
def wrappedLeft (joinOp : OpId) (kind : JoinKind) (cachedScan : OpId) (rhs : Plan) : Plan :=
  join joinOp kind (scan cachedScan .columnDataScan) rhs

def wrappedRight (joinOp : OpId) (kind : JoinKind) (placeholder : OpId) (lhs : Plan) : Plan :=
  join joinOp kind lhs (scan placeholder .dummyScan)

def children : Plan → List Plan
  | scan _ _ | delimScan _ | cteScan _ | recursiveCteScan _ => []
  | unary _ _ child => [child]
  | join _ _ lhs rhs => [lhs, rhs]
  | cte _ _ definition query => [definition, query]
  | leftDelimJoin _ _ _ lhs joinOp kind cachedScan rhs =>
    [lhs, wrappedLeft joinOp kind cachedScan rhs]
  | rightDelimJoin _ _ _ rhs joinOp kind placeholder lhs =>
    [rhs, wrappedRight joinOp kind placeholder lhs]
  | resultCollector _ plan => [plan]

/-- Every operator object of the tree, the duplicate-eliminating aggregates included. -/
def objects : Plan → List Operator
  | p@(scan _ _) | p@(delimScan _) | p@(cteScan _) | p@(recursiveCteScan _) => [p.operator]
  | p@(unary _ _ child) => p.operator :: child.objects
  | p@(join _ _ lhs rhs) => p.operator :: (rhs.objects ++ lhs.objects)
  | p@(cte _ _ definition query) => p.operator :: (definition.objects ++ query.objects)
  | p@(leftDelimJoin _ distinct _ lhs joinOp kind cachedScan rhs) =>
    p.operator :: ⟨distinct, .unary .hashGroupBy⟩ :: ⟨joinOp, .join kind⟩ ::
      ⟨cachedScan, .scan .columnDataScan⟩ :: (lhs.objects ++ rhs.objects)
  | p@(rightDelimJoin _ distinct _ rhs joinOp kind placeholder lhs) =>
    p.operator :: ⟨distinct, .unary .hashGroupBy⟩ :: ⟨joinOp, .join kind⟩ ::
      ⟨placeholder, .scan .dummyScan⟩ :: (rhs.objects ++ lhs.objects)
  | p@(resultCollector _ plan) => p.operator :: plan.objects

/-- The CTE scans the CTE nodes of the tree list as theirs. -/
def registeredCteScans : Plan → List OpId
  | scan _ _ | delimScan _ | cteScan _ | recursiveCteScan _ => []
  | unary _ _ child => child.registeredCteScans
  | join _ _ lhs rhs => rhs.registeredCteScans ++ lhs.registeredCteScans
  | cte _ cteScans definition query =>
    cteScans ++ (definition.registeredCteScans ++ query.registeredCteScans)
  | leftDelimJoin _ _ _ lhs _ _ _ rhs => lhs.registeredCteScans ++ rhs.registeredCteScans
  | rightDelimJoin _ _ _ rhs _ _ _ lhs => rhs.registeredCteScans ++ lhs.registeredCteScans
  | resultCollector _ plan => plan.registeredCteScans

/-- The operators a pipeline through the node runs above its source, top-down. CTE and
delim-join nodes are passed through without a trace. -/
def spine : Plan → List Operator
  | scan _ _ | delimScan _ | cteScan _ | recursiveCteScan _ => []
  | unary op unaryType child =>
    if unaryType.isSink then [] else ⟨op, .unary unaryType⟩ :: child.spine
  | join op kind lhs _ => ⟨op, .join kind⟩ :: lhs.spine
  | cte _ _ _ query => query.spine
  | leftDelimJoin _ _ _ _ joinOp kind _ _ => [⟨joinOp, .join kind⟩]
  | rightDelimJoin _ _ _ _ joinOp kind _ lhs => ⟨joinOp, .join kind⟩ :: lhs.spine
  | resultCollector _ _ => []

/-- The sinks of the tree, each with the subtree that feeds it. -/
def feeds : Plan → List (Operator × Plan)
  | scan _ _ | delimScan _ | cteScan _ | recursiveCteScan _ => []
  | unary op unaryType child =>
    if unaryType.isSink then (⟨op, .unary unaryType⟩, child) :: child.feeds else child.feeds
  | join op kind lhs rhs => (⟨op, .join kind⟩, rhs) :: (rhs.feeds ++ lhs.feeds)
  | cte op cteScans definition query =>
    (⟨op, .cte cteScans⟩, definition) :: (definition.feeds ++ query.feeds)
  | leftDelimJoin op distinct _ lhs joinOp kind cachedScan rhs =>
    (⟨op, .leftDelimJoin distinct cachedScan⟩, lhs) ::
      (lhs.feeds ++ (⟨joinOp, .join kind⟩, rhs) :: rhs.feeds)
  | rightDelimJoin op distinct _ rhs joinOp kind _ lhs =>
    (⟨op, .rightDelimJoin distinct joinOp kind⟩, rhs) :: (rhs.feeds ++ lhs.feeds)
  | resultCollector op plan => (⟨op, .resultCollector⟩, plan) :: plan.feeds

/-- The operators of the pipeline through the node that read nothing a sink has stored. -/
def unfed : Plan → List Operator
  | scan op scanType => [⟨op, .scan scanType⟩]
  | delimScan _ | cteScan _ | recursiveCteScan _ => []
  | unary op unaryType child =>
    if unaryType.isSink then [] else ⟨op, .unary unaryType⟩ :: child.unfed
  | join _ _ lhs _ => lhs.unfed
  | cte _ _ _ query => query.unfed
  | leftDelimJoin _ _ _ _ _ _ _ _ => []
  | rightDelimJoin _ _ _ _ _ _ _ lhs => lhs.unfed
  | resultCollector _ _ => []

/-- Operators are objects of their own, and a CTE scan reads one CTE. -/
structure WellFormed (p : Plan) : Prop where
  distinct : (p.objects.map Operator.id).Nodup
  cteScans : p.registeredCteScans.Nodup

/-- Shared data is scanned only where its sink is built first, nothing recurses, and a
right delim join wraps a hash join. -/
def Scoped (ctes delims : List OpId) : Plan → Prop
  | scan _ _ => True
  | delimScan op => op ∈ delims
  | cteScan op => op ∈ ctes
  | recursiveCteScan _ => False
  | unary _ _ child => child.Scoped ctes delims
  | join _ _ lhs rhs => lhs.Scoped ctes delims ∧ rhs.Scoped ctes delims
  | cte _ cteScans definition query =>
    definition.Scoped ctes delims ∧ query.Scoped (ctes ++ cteScans) delims
  | leftDelimJoin _ _ delimScans lhs _ _ _ rhs =>
    lhs.Scoped ctes delims ∧ rhs.Scoped ctes (delims ++ delimScans)
  | rightDelimJoin _ _ delimScans rhs _ kind _ lhs =>
    rhs.Scoped ctes delims ∧ lhs.Scoped ctes (delims ++ delimScans) ∧
      ∃ joinType, kind = .hashJoin joinType
  | resultCollector _ plan => plan.Scoped ctes delims

instance (p : Plan) : Decidable p.WellFormed :=
  decidable_of_iff ((p.objects.map Operator.id).Nodup ∧ p.registeredCteScans.Nodup)
    ⟨fun h => ⟨h.1, h.2⟩, fun h => ⟨h.1, h.2⟩⟩

end Plan

/-- The operators that read what a sink has stored: as sources or while executing. -/
def Operator.consumers (sink : Operator) : List Operator :=
  match sink.type with
  | .cte cteScans => cteScans.map fun op => ⟨op, .cteScan⟩
  | .leftDelimJoin distinct cachedScan =>
    [⟨distinct, .unary .hashGroupBy⟩, ⟨cachedScan, .scan .columnDataScan⟩]
  | .rightDelimJoin distinct join kind => [⟨distinct, .unary .hashGroupBy⟩, ⟨join, .join kind⟩]
  | _ => [sink]

def Operator.isJoinSource (op : Operator) : Bool :=
  match op.type with
  | .join kind => kind.isSource
  | _ => false

/-- The splits of a spine at its source joins, the deepest join first. -/
def sourceSplits : List Operator → List (List Operator × Operator)
  | [] => []
  | op :: rest =>
    (sourceSplits rest).map (fun split => (op :: split.1, split.2)) ++
      if op.isJoinSource then [([], op)] else []

theorem sourceSplits_split {ops : List Operator} {split : List Operator × Operator}
    (h : split ∈ sourceSplits ops) :
    split.2.isJoinSource ∧ ∃ rest, ops = split.1 ++ split.2 :: rest := by
  induction ops generalizing split with
  | nil => cases h
  | cons op ops ih =>
    rcases List.mem_append.mp h with h | h
    · obtain ⟨inner, hinner, rfl⟩ := List.mem_map.mp h
      obtain ⟨source, rest, rfl⟩ := ih hinner
      exact ⟨source, rest, rfl⟩
    · split at h
      · rename_i source
        obtain rfl := List.mem_singleton.mp h
        exact ⟨source, ops, rfl⟩
      · cases h

section Consumers

theorem sourceSplits_nodup {ops : List Operator} (distinct : ops.Nodup) :
    (sourceSplits ops).Nodup := by
  induction ops with
  | nil => exact List.nodup_nil
  | cons op ops ih =>
    have inner := ih (List.nodup_cons.mp distinct).2
    refine List.nodup_append.mpr ⟨?_, by split <;> simp, ?_⟩
    · refine inner.map ?_
      rintro ⟨xs, x⟩ ⟨ys, y⟩ h
      simpa using h
    · rintro a ha b hb rfl
      obtain ⟨split, _, rfl⟩ := List.mem_map.mp ha
      split at hb <;> simp at hb

/-- A split that runs a join comes before the split at that join. -/
theorem sourceSplits_before {ops : List Operator} (distinct : ops.Nodup)
    {outer inner : List Operator × Operator} (ho : outer ∈ sourceSplits ops)
    (hi : inner ∈ sourceSplits ops) (runs : inner.2 ∈ outer.1) :
    [outer, inner].Sublist (sourceSplits ops) := by
  induction ops generalizing outer inner with
  | nil => cases ho
  | cons op ops ih =>
    obtain ⟨fresh, distinct⟩ := List.nodup_cons.mp distinct
    have hlast : ∀ split, split ∈ (if op.isJoinSource then [(([] : List Operator), op)] else []) →
        split = ([], op) := by
      intro split h
      split at h
      · exact List.mem_singleton.mp h
      · cases h
    rcases List.mem_append.mp ho with ho | ho
    · obtain ⟨outer, ho', rfl⟩ := List.mem_map.mp ho
      rcases List.mem_append.mp hi with hi | hi
      · obtain ⟨inner, hi', rfl⟩ := List.mem_map.mp hi
        have hmem : inner.2 ∈ ops := by
          obtain ⟨_, rest, hrest⟩ := sourceSplits_split hi'
          rw [hrest]
          simp
        have runs : inner.2 ∈ outer.1 := by
          rcases List.mem_cons.mp runs with h | h
          · exact absurd (h ▸ hmem) fresh
          · exact h
        have sub := (ih distinct ho' hi' runs).map
          (fun split : List Operator × Operator => (op :: split.1, split.2))
        exact sub.trans (List.sublist_append_left _ _)
      · exact (List.singleton_sublist.mpr ho).append (List.singleton_sublist.mpr hi)
    · rw [hlast outer ho] at runs
      cases runs

/-- What the sinks of a tree feed, and what they do not. -/
def Plan.fed (p : Plan) : List Operator := p.feeds.flatMap fun feed => feed.1.consumers

def Plan.allUnfed (p : Plan) : List Operator :=
  p.unfed ++ p.feeds.flatMap fun feed => feed.2.unfed

lemma count_cteScans (scans : List OpId) {x : Operator} (hx : x.type = .cteScan) :
    (scans.map fun op => (⟨op, .cteScan⟩ : Operator)).count x = scans.count x.id := by
  obtain ⟨id, type⟩ := x
  subst hx
  induction scans with
  | nil => rfl
  | cons op scans ih => simp [List.count_cons, ih]

lemma count_other_cteScans (scans : List OpId) {x : Operator} (hx : x.type ≠ .cteScan) :
    (scans.map fun op => (⟨op, .cteScan⟩ : Operator)).count x = 0 := by
  refine List.count_eq_zero.mpr ?_
  intro h
  obtain ⟨op, _, rfl⟩ := List.mem_map.mp h
  exact hx rfl

lemma beq_cteScan {x : Operator} (hx : x.type = .cteScan) (id : OpId) {type : OperatorType}
    (ht : type ≠ .cteScan) : ((⟨id, type⟩ : Operator) == x) = false := by
  obtain ⟨xid, xtype⟩ := x
  subst hx
  simp [ht]

/-- A CTE scan is fed as often as it is registered. -/
theorem count_fed_cteScan (p : Plan) {x : Operator} (hx : x.type = .cteScan) :
    p.fed.count x + p.allUnfed.count x ≤ p.registeredCteScans.count x.id := by
  unfold Plan.fed Plan.allUnfed
  induction p with
  | scan op scanType => simp [Plan.feeds, Plan.unfed, List.count_cons, beq_cteScan hx]
  | delimScan | cteScan | recursiveCteScan => simp [Plan.feeds, Plan.unfed]
  | unary op unaryType child ih =>
    cases kind : unaryType.isSink <;>
      simp [Plan.feeds, Plan.unfed, Plan.registeredCteScans, List.count_cons, beq_cteScan hx,
        kind, Operator.consumers, List.count_append] at ih ⊢ <;> omega
  | join op kind lhs rhs ihl ihr =>
    simp [Plan.feeds, Plan.unfed, Plan.registeredCteScans, List.count_cons, beq_cteScan hx,
      Operator.consumers, List.count_append] at ihl ihr ⊢
    omega
  | cte op cteScans definition query ihd ihq =>
    simp [Plan.feeds, Plan.unfed, Plan.registeredCteScans, Operator.consumers,
      List.count_append, count_cteScans cteScans hx] at ihd ihq ⊢
    omega
  | leftDelimJoin op distinct delimScans lhs joinOp kind cachedScan rhs ihl ihr =>
    simp [Plan.feeds, Plan.unfed, Plan.registeredCteScans, List.count_cons, beq_cteScan hx,
      Operator.consumers, List.count_append] at ihl ihr ⊢
    omega
  | rightDelimJoin op distinct delimScans rhs joinOp kind placeholder lhs ihr ihl =>
    simp [Plan.feeds, Plan.unfed, Plan.registeredCteScans, List.count_cons, beq_cteScan hx,
      Operator.consumers, List.count_append] at ihl ihr ⊢
    omega
  | resultCollector op plan ih =>
    simp [Plan.feeds, Plan.unfed, Plan.registeredCteScans, List.count_cons, beq_cteScan hx,
      Operator.consumers, List.count_append] at ih ⊢
    omega

/-- Any other operator is met, fed or not, at most as often as it is an object. -/
theorem count_fed_object (p : Plan) {x : Operator} (hx : x.type ≠ .cteScan) :
    p.fed.count x + p.allUnfed.count x ≤ p.objects.count x := by
  unfold Plan.fed Plan.allUnfed
  induction p with
  | scan op scanType => simp [Plan.feeds, Plan.unfed, Plan.objects, Plan.operator]
  | delimScan | cteScan | recursiveCteScan => simp [Plan.feeds, Plan.unfed]
  | unary op unaryType child ih =>
    cases kind : unaryType.isSink <;>
      simp [Plan.feeds, Plan.unfed, Plan.objects, Plan.operator, List.count_cons, kind,
        Operator.consumers, List.count_append] at ih ⊢ <;> omega
  | join op kind lhs rhs ihl ihr =>
    simp [Plan.feeds, Plan.unfed, Plan.objects, Plan.operator, List.count_cons,
      Operator.consumers, List.count_append] at ihl ihr ⊢
    omega
  | cte op cteScans definition query ihd ihq =>
    simp [Plan.feeds, Plan.unfed, Plan.objects, Plan.operator, List.count_cons,
      Operator.consumers, List.count_append, count_other_cteScans cteScans hx] at ihd ihq ⊢
    omega
  | leftDelimJoin op distinct delimScans lhs joinOp kind cachedScan rhs ihl ihr =>
    simp [Plan.feeds, Plan.unfed, Plan.objects, Plan.operator, List.count_cons,
      Operator.consumers, List.count_append] at ihl ihr ⊢
    omega
  | rightDelimJoin op distinct delimScans rhs joinOp kind placeholder lhs ihr ihl =>
    simp [Plan.feeds, Plan.unfed, Plan.objects, Plan.operator, List.count_cons,
      Operator.consumers, List.count_append] at ihl ihr ⊢
    omega
  | resultCollector op plan ih =>
    simp [Plan.feeds, Plan.unfed, Plan.objects, Plan.operator, List.count_cons,
      Operator.consumers, List.count_append] at ih ⊢
    omega

/-- The operators of all spines of the tree. -/
def Plan.allSpines (p : Plan) : List Operator :=
  p.spine ++ p.feeds.flatMap fun feed => feed.2.spine

theorem count_spines (p : Plan) (x : Operator) : p.allSpines.count x ≤ p.objects.count x := by
  unfold Plan.allSpines
  induction p with
  | scan | delimScan | cteScan | recursiveCteScan => simp [Plan.feeds, Plan.spine]
  | unary op unaryType child ih =>
    cases kind : unaryType.isSink <;>
      simp [Plan.feeds, Plan.spine, Plan.objects, Plan.operator, List.count_cons, kind,
        List.count_append] at ih ⊢ <;> omega
  | join op kind lhs rhs ihl ihr =>
    simp [Plan.feeds, Plan.spine, Plan.objects, Plan.operator, List.count_cons,
      List.count_append] at ihl ihr ⊢
    omega
  | cte op cteScans definition query ihd ihq =>
    simp [Plan.feeds, Plan.spine, Plan.objects, List.count_cons,
      List.count_append] at ihd ihq ⊢
    omega
  | leftDelimJoin op distinct delimScans lhs joinOp kind cachedScan rhs ihl ihr =>
    simp [Plan.feeds, Plan.spine, Plan.objects, List.count_cons,
      List.count_append] at ihl ihr ⊢
    omega
  | rightDelimJoin op distinct delimScans rhs joinOp kind placeholder lhs ihr ihl =>
    simp [Plan.feeds, Plan.spine, Plan.objects, List.count_cons,
      List.count_append] at ihl ihr ⊢
    omega
  | resultCollector op plan ih =>
    simp [Plan.feeds, Plan.spine, Plan.objects, List.count_cons,
      List.count_append] at ih ⊢
    omega

theorem Plan.WellFormed.spines_nodup {p : Plan} (wf : p.WellFormed) :
    (p.allSpines.map Operator.id).Nodup := by
  obtain ⟨l, perm, sub⟩ := List.subperm_ext_iff.mpr (fun x _ => count_spines p x)
  exact (perm.map _).nodup_iff.mp (wf.distinct.sublist (sub.map _))

theorem Plan.WellFormed.fed_nodup {p : Plan} (wf : p.WellFormed) :
    (p.fed ++ p.allUnfed).Nodup := by
  refine List.nodup_iff_count_le_one.mpr ?_
  intro x
  rw [List.count_append]
  by_cases hx : x.type = .cteScan
  · have := count_fed_cteScan p hx
    have := List.nodup_iff_count_le_one.mp wf.cteScans x.id
    omega
  · have := count_fed_object p hx
    have := List.nodup_iff_count_le_one.mp (List.Nodup.of_map _ wf.distinct) x
    omega

end Consumers

end PhysicalPlan
