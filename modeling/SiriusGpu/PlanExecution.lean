import Mathlib
import SiriusGpu.LocalActions
import SiriusGpu.PipelinePaths

/-!
# Execution of a plan

`GPUExecutor::Execute` runs the scheduled pipelines one after another: the source of a pipeline
gives a relation, its operators turn it into another, and the sink stores that. The methods of
the operators are parameters. Each acts on the state of its own operator, but a scan of a CTE
reads the table of the CTE, and the sink of a delim join calls those of two other operators.

The meaning of a plan follows its tree: what a node passes on is made from what its children
pass on, and no pipeline appears in it.
-/

namespace PlanExecution

open PhysicalPlan PipelineBuild PipelineSchedule PipelinePaths LocalActions

variable {R S : Type}

section Model

/-- The virtual methods of the operators over relations `R` and states `S`; `none` is an
exception. -/
structure Methods (R S : Type) where
  initial : Operator → S
  getData : Operator → S → Option R
  execute : Operator → R → S → Option (R × S)
  sink : Operator → R → S → Option S

/-- The operators into whose state a sink stores. -/
def stores (sink : Operator) : List Operator :=
  match sink.type with
  | .leftDelimJoin distinct cachedScan =>
    [⟨cachedScan, .scan .columnDataScan⟩, ⟨distinct, .unary .hashGroupBy⟩]
  | .rightDelimJoin distinct join kind => [⟨join, .join kind⟩, ⟨distinct, .unary .hashGroupBy⟩]
  | _ => [sink]

/-- The CTE scans of a tree, each with the CTE whose table it shares. -/
def cteTables : Plan → List (OpId × Operator)
  | .scan _ _ | .delimScan _ | .cteScan _ | .recursiveCteScan _ => []
  | .unary _ _ child => cteTables child
  | .join _ _ lhs rhs => cteTables rhs ++ cteTables lhs
  | .cte op cteScans definition query =>
    cteScans.map (·, ⟨op, .cte cteScans⟩) ++ (cteTables definition ++ cteTables query)
  | .leftDelimJoin _ _ _ lhs _ _ _ rhs => cteTables lhs ++ cteTables rhs
  | .rightDelimJoin _ _ _ rhs _ _ _ lhs => cteTables rhs ++ cteTables lhs
  | .resultCollector _ plan => cteTables plan

variable (m : Methods R S) (tables : List (OpId × Operator))

/-- The operator in whose state the source finds its data. -/
def readsFrom (source : Operator) : Operator :=
  match source.type with
  | .cteScan => (lookup tables source.id).getD source
  | _ => source

def getData (source : Operator) : Action Operator S R :=
  readCell (readsFrom tables source) (m.getData source)

def execute (op : Operator) (r : R) : Action Operator S R := onCell op (m.execute op r)

def store (r : R) (op : Operator) : Action Operator S PUnit :=
  onCell op fun s => (m.sink op r s).map (⟨⟩, ·)

def sink (op : Operator) (r : R) : Action Operator S PUnit := forM (stores op) (store m r)

/-- The body of the loop of `GPUExecutor::Execute`. -/
def runPipeline (p : Pipeline) : Action Operator S PUnit :=
  match p.source with
  | none => fun _ => none
  | some source => do
    let r ← getData m tables source
    let r ← p.operators.foldlM (fun r op => execute m op r) r
    match p.sink with
    | none => pure ⟨⟩
    | some op => sink m op r

/-- The states that a schedule leaves. -/
def executeSchedule (scheduled : List Pipeline) : Option (Operator → S) :=
  ((forM scheduled (runPipeline m tables)).run m.initial).map Prod.snd

end Model

section Meaning

variable (m : Methods R S)

/-- Joins that pass on more once all rows have been probed. -/
def passesStored (op : Operator) : Bool :=
  match op.type with
  | .join (.hashJoin joinType) => scansHashTable joinType
  | .join (.nestedLoopJoin joinType) => propagatesBuildSide joinType
  | _ => false

def sinkAll (op : Operator) (rs : List R) (s : S) : Option S :=
  rs.foldlM (fun s r => m.sink op r s) s

def executeAll (op : Operator) : List R → S → Option (List R × S)
  | [], s => some ([], s)
  | r :: rs, s => do
    let (out, s) ← m.execute op r s
    let (outs, s) ← executeAll op rs s
    some (out :: outs, s)

/-- What an operator makes of the relations that reach it. -/
def pass (op : Operator) (rs : List R) (s : S) : Option (List R × S) := do
  let (outs, s) ← executeAll m op rs s
  if passesStored op then do
    let stored ← m.getData op s
    some (outs ++ [stored], s)
  else some (outs, s)

/-- What the scans of shared data give. -/
structure Shared (R : Type) where
  delims : OpId → Option R
  ctes : OpId → Option R

def Shared.withDelims (shared : Shared R) (scans : List OpId) (r : Option R) : Shared R :=
  { shared with delims := fun op => if op ∈ scans then r else shared.delims op }

def Shared.withCtes (shared : Shared R) (scans : List OpId) (r : OpId → Option R) : Shared R :=
  { shared with ctes := fun op => if op ∈ scans then r op else shared.ctes op }

/-- The relations that a node passes on, one after another. -/
def flow : Plan → Shared R → Option (List R)
  | .scan op scanType, _ => do
    let r ← m.getData ⟨op, .scan scanType⟩ (m.initial ⟨op, .scan scanType⟩)
    some [r]
  | .delimScan op, shared => do
    let r ← shared.delims op
    some [r]
  | .cteScan op, shared => do
    let r ← shared.ctes op
    some [r]
  | .recursiveCteScan _, _ => none
  | .unary op unaryType child, shared => do
    let self : Operator := ⟨op, .unary unaryType⟩
    let rs ← flow child shared
    if unaryType.isSink then do
      let s ← sinkAll m self rs (m.initial self)
      let r ← m.getData self s
      some [r]
    else do
      let (outs, _) ← pass m self rs (m.initial self)
      some outs
  | .join op kind lhs rhs, shared => do
    let self : Operator := ⟨op, .join kind⟩
    let build ← flow rhs shared
    let s ← sinkAll m self build (m.initial self)
    let probe ← flow lhs shared
    let (outs, _) ← pass m self probe s
    some outs
  | .cte op cteScans definition query, shared => do
    let self : Operator := ⟨op, .cte cteScans⟩
    let rs ← flow definition shared
    let s ← sinkAll m self rs (m.initial self)
    flow query (shared.withCtes cteScans fun scan => m.getData ⟨scan, .cteScan⟩ s)
  | .leftDelimJoin _ distinct delimScans lhs joinOp kind cachedScan rhs, shared => do
    let cached : Operator := ⟨cachedScan, .scan .columnDataScan⟩
    let keys : Operator := ⟨distinct, .unary .hashGroupBy⟩
    let join : Operator := ⟨joinOp, .join kind⟩
    let rs ← flow lhs shared
    let kept ← sinkAll m cached rs (m.initial cached)
    let s ← sinkAll m keys rs (m.initial keys)
    let build ← flow rhs (shared.withDelims delimScans (m.getData keys s))
    let s ← sinkAll m join build (m.initial join)
    let probe ← m.getData cached kept
    let (outs, _) ← pass m join [probe] s
    some outs
  | .rightDelimJoin _ distinct delimScans rhs joinOp kind _ lhs, shared => do
    let keys : Operator := ⟨distinct, .unary .hashGroupBy⟩
    let join : Operator := ⟨joinOp, .join kind⟩
    let build ← flow rhs shared
    let s ← sinkAll m join build (m.initial join)
    let distinctKeys ← sinkAll m keys build (m.initial keys)
    let probe ← flow lhs (shared.withDelims delimScans (m.getData keys distinctKeys))
    let (outs, _) ← pass m join probe s
    some outs
  | .resultCollector op plan, shared => do
    let self : Operator := ⟨op, .resultCollector⟩
    let rs ← flow plan shared
    let s ← sinkAll m self rs (m.initial self)
    let r ← m.getData self s
    some [r]

/-- The state of a result collector that is given what the plan passes on. -/
def collected (op : OpId) (plan : Plan) : Option S := do
  let rs ← flow m plan ⟨fun _ => none, fun _ => none⟩
  sinkAll m ⟨op, .resultCollector⟩ rs (m.initial ⟨op, .resultCollector⟩)

end Meaning

section Stages

variable (m : Methods R S) (tables : List (OpId × Operator))

def stage (op : Operator) (rs : List R) : Action Operator S (List R) := onCell op (pass m op rs)

/-- All relations through one operator after the other, instead of one relation through all. -/
def passThrough : List Operator → List R → Action Operator S (List R)
  | [], rs => pure rs
  | op :: rest, rs => passThrough rest rs >>= stage m op

/-- A source, and operators from the top down, in front of a continuation. -/
def runFrom (k : R → Action Operator S PUnit) (x : Operator × List Operator) :
    Action Operator S PUnit :=
  getData m tables x.1 >>= fun r => x.2.foldrM (execute m) r >>= k

/-- The pipelines of a group: one for the source, one for each join that passes on more. -/
def groupOf (source : Operator) (spine : List Operator) : List (Operator × List Operator) :=
  (source, spine) :: ((sourceSplits spine).filter fun split => passesStored split.2).map
    fun split => (split.2, split.1)

variable {m tables} {op source : Operator} {k : R → Action Operator S PUnit}
  {uses writes : Set Operator}

theorem isJoinSource_of_passesStored (passes : passesStored op = true) :
    op.isJoinSource = true := by
  obtain ⟨id, type⟩ := op
  cases type with
  | join kind =>
    cases kind with
    | hashJoin => rfl
    | nestedLoopJoin => exact passes
  | _ => cases passes

theorem readsFrom_join (passes : passesStored op = true) : readsFrom tables op = op := by
  obtain ⟨id, type⟩ := op
  cases type with
  | join kind => rfl
  | _ => cases passes

theorem executeAll_cons {r : R} {rs : List R} :
    (onCell op (executeAll m op (r :: rs)) : Action Operator S (List R)) =
      execute m op r >>= fun out =>
        onCell op (executeAll m op rs) >>= fun outs => pure (out :: outs) := by
  have last (out : R) : ((onCell op (executeAll m op rs) : Action Operator S (List R)) >>=
      fun outs => pure (out :: outs)) = onCell op fun s => (executeAll m op rs s).bind fun x =>
        some (out :: x.1, x.2) := by
    simp only [pure_eq_onCell op]
    exact onCell_bind
  simp only [last]
  exact (onCell_bind (k := op) (f := m.execute op r) (g := fun out s =>
    (executeAll m op rs s).bind fun x => some (out :: x.1, x.2))).symm

/-- What is done with each relation can wait until all have passed an operator. -/
theorem forM_execute (loc : ∀ r, Local uses writes (k r)) (apart : op ∉ uses) (rs : List R) :
    forM rs (fun r => execute m op r >>= k) =
      onCell op (executeAll m op rs) >>= fun outs => forM outs k := by
  induction rs with
  | nil =>
    have none : onCell op (executeAll m op []) = pure [] := (pure_eq_onCell op).symm
    rw [none, pure_bind]
    rfl
  | cons r rs ih =>
    have swap (out : R) := (loc out).comm (local_onCell op (executeAll m op rs))
      (Set.disjoint_singleton_right.mpr fun h => apart ((loc out).sub h))
      (Set.disjoint_singleton_left.mpr apart)
      fun _ outs => forM outs k
    simp only [List.forM_cons, ih, executeAll_cons, bind_assoc, pure_bind, swap]

theorem stage_eq : stage m op = fun rs => onCell op (executeAll m op rs) >>= fun outs =>
    if passesStored op then readCell op (m.getData op) >>= fun stored => pure (outs ++ [stored])
    else pure outs := by
  funext rs
  have last (outs : List R) : (if passesStored op then
      readCell op (m.getData op) >>= fun stored => pure (outs ++ [stored])
      else pure outs : Action Operator S (List R)) = onCell op fun s =>
        if passesStored op then (m.getData op s).bind fun stored => some (outs ++ [stored], s)
        else some (outs, s) := by
    split
    · rw [readCell_eq_onCell]
      simp only [pure_eq_onCell op, onCell_bind, Option.bind_map]
      rfl
    · exact pure_eq_onCell op
  simp only [last, onCell_bind]
  rfl

/-- The pipelines of a group that starts one operator further up. -/
theorem forM_groupOf_cons (rest : List Operator) :
    forM (groupOf source (op :: rest)) (runFrom m tables k) =
      forM (groupOf source rest) (runFrom m tables fun r => execute m op r >>= k) >>= fun _ =>
        if passesStored op then readCell op (m.getData op) >>= k else pure ⟨⟩ := by
  have longer (x : Operator × List Operator) : runFrom m tables k (x.1, op :: x.2) =
      runFrom m tables (fun r => execute m op r >>= k) x := by
    simp only [runFrom, List.foldrM_cons, bind_assoc]
  have splits : groupOf source (op :: rest) =
      (groupOf source rest).map (fun x => (x.1, op :: x.2)) ++
        if passesStored op then [(op, [])] else [] := by
    cases passes : passesStored op with
    | true =>
      simp [groupOf, sourceSplits, isJoinSource_of_passesStored passes, passes,
        List.filter_map, Function.comp_def]
    | false =>
      by_cases join : op.isJoinSource = true <;>
        simp [groupOf, sourceSplits, join, passes, List.filter_map, Function.comp_def]
  rw [splits, List.forM_append, List.forM_map]
  simp only [longer]
  congr 1
  funext _
  cases passes : passesStored op with
  | true =>
    simp [runFrom, getData, readsFrom_join passes]
  | false => rfl

/-- The pipelines of a group, run one after another, do what its operators do when all
relations pass each operator before the next. -/
theorem forM_groupOf (spine : List Operator) (distinct : spine.Nodup)
    (loc : ∀ r, Local uses writes (k r)) (apart : ∀ op ∈ spine, op ∉ uses) :
    forM (groupOf source spine) (runFrom m tables k) = getData m tables source >>= fun r =>
      passThrough m spine [r] >>= fun rs => forM rs k := by
  induction spine generalizing k uses writes with
  | nil =>
    simp [groupOf, sourceSplits, runFrom, passThrough]
  | cons op rest ih =>
    obtain ⟨fresh, distinct⟩ := List.nodup_cons.mp distinct
    have away : op ∉ uses := apart op List.mem_cons_self
    have loc' (r : R) : Local (insert op uses) (insert op writes) (execute m op r >>= k) := by
      have sub : insert op writes ⊆ insert op uses := Set.insert_subset_insert (loc r).sub
      refine Local.bind ((local_onCell op _).mono ?_ ?_ sub) fun out =>
        (loc out).mono (Set.subset_insert _ _) (Set.subset_insert _ _) sub
      · exact Set.singleton_subset_iff.mpr (Set.mem_insert _ _)
      · exact Set.singleton_subset_iff.mpr (Set.mem_insert _ _)
    have inner := ih distinct loc' fun x inside used => by
      rcases Set.mem_insert_iff.mp used with rfl | used
      · exact fresh inside
      · exact apart x (List.mem_cons_of_mem _ inside) used
    rw [forM_groupOf_cons, inner]
    simp only [bind_assoc, passThrough, stage_eq, forM_execute loc away]
    congr 1
    funext r
    congr 1
    funext rs
    congr 1
    funext outs
    cases passes : passesStored op with
    | false => simp
    | true =>
      -- the stored rows are read before or after the others are passed on
      have each : Local uses writes (forM outs k) := Local.forM (loc (by exact r)).sub
        fun r _ => loc r
      have swap := each.comm (local_readCell op (m.getData op))
        (Set.disjoint_singleton_right.mpr fun h => away (each.sub h)) (Set.empty_disjoint _)
        fun _ stored => k stored
      simp [List.forM_append, swap]

end Stages

section Feeds

/-- The sinks of a tree with what feeds them, each behind those that it builds on. -/
def postOrder : Plan → List (Operator × Plan)
  | .scan _ _ | .delimScan _ | .cteScan _ | .recursiveCteScan _ => []
  | .unary op unaryType child =>
    if unaryType.isSink then postOrder child ++ [(⟨op, .unary unaryType⟩, child)]
    else postOrder child
  | .join op kind lhs rhs => postOrder rhs ++ (⟨op, .join kind⟩, rhs) :: postOrder lhs
  | .cte op cteScans definition query =>
    postOrder definition ++ (⟨op, .cte cteScans⟩, definition) :: postOrder query
  | .leftDelimJoin op distinct _ lhs joinOp kind cachedScan rhs =>
    postOrder lhs ++ (⟨op, .leftDelimJoin distinct cachedScan⟩, lhs) ::
      (postOrder rhs ++ [(⟨joinOp, .join kind⟩, rhs)])
  | .rightDelimJoin op distinct _ rhs joinOp kind _ lhs =>
    postOrder rhs ++ (⟨op, .rightDelimJoin distinct joinOp kind⟩, rhs) :: postOrder lhs
  | .resultCollector op plan => postOrder plan ++ [(⟨op, .resultCollector⟩, plan)]

theorem postOrder_perm (p : Plan) : (postOrder p).Perm p.feeds := by
  induction p with
  | scan | delimScan | cteScan | recursiveCteScan => exact .nil
  | unary op unaryType child ih =>
    by_cases breaks : unaryType.isSink = true
    · simp only [postOrder, Plan.feeds, breaks, if_true]
      exact (List.perm_append_singleton _ _).trans (ih.cons _)
    · simpa [postOrder, Plan.feeds, breaks] using ih
  | join op kind lhs rhs ihl ihr =>
    exact List.perm_middle.trans ((ihr.append ihl).cons _)
  | cte op cteScans definition query ihd ihq =>
    exact List.perm_middle.trans ((ihd.append ihq).cons _)
  | leftDelimJoin op distinct delimScans lhs joinOp kind cachedScan rhs ihl ihr =>
    refine List.perm_middle.trans (List.Perm.cons _ (ihl.append ?_))
    exact (List.perm_append_singleton _ _).trans (ihr.cons _)
  | rightDelimJoin op distinct delimScans rhs joinOp kind placeholder lhs ihr ihl =>
    exact List.perm_middle.trans ((ihr.append ihl).cons _)
  | resultCollector op plan ih =>
    exact (List.perm_append_singleton _ _).trans (ih.cons _)

variable {p top : Plan} {feed other : Operator × Plan} {x : Operator}

/-- What feeds a sink is run before the sink. -/
theorem postOrder_nested (member : feed ∈ postOrder p) :
    (postOrder feed.2 ++ [feed]).Sublist (postOrder p) := by
  induction p with
  | scan | delimScan | cteScan | recursiveCteScan => cases member
  | unary op unaryType child ih =>
    by_cases breaks : unaryType.isSink = true
    · simp only [postOrder, breaks, if_true, List.mem_append, List.mem_singleton] at member ⊢
      rcases member with member | rfl
      · exact (ih member).trans (List.sublist_append_left _ _)
      · exact List.Sublist.refl _
    · simp only [postOrder, breaks] at member ⊢
      exact ih member
  | join op kind lhs rhs ihl ihr | cte op cteScans rhs lhs ihr ihl
  | rightDelimJoin op distinct delimScans rhs joinOp kind placeholder lhs ihr ihl =>
    simp only [postOrder, List.mem_append, List.mem_cons] at member ⊢
    rcases member with member | rfl | member
    · exact (ihr member).trans (List.sublist_append_left _ _)
    · exact (List.Sublist.refl _).append (List.singleton_sublist.mpr List.mem_cons_self)
    · exact (ihl member).trans ((List.sublist_cons_self _ _).trans
        (List.sublist_append_right _ _))
  | leftDelimJoin op distinct delimScans lhs joinOp kind cachedScan rhs ihl ihr =>
    simp only [postOrder, List.mem_append, List.mem_cons, List.not_mem_nil, or_false]
      at member ⊢
    rcases member with member | rfl | member | rfl
    · exact (ihl member).trans (List.sublist_append_left _ _)
    · exact (List.Sublist.refl _).append (List.singleton_sublist.mpr List.mem_cons_self)
    · exact (ihr member).trans ((List.sublist_append_left _ _).trans
        ((List.sublist_cons_self _ _).trans (List.sublist_append_right _ _)))
    · exact (List.sublist_cons_self _ _).trans (List.sublist_append_right _ _)
  | resultCollector op plan ih =>
    simp only [postOrder, List.mem_append, List.mem_singleton] at member ⊢
    rcases member with member | rfl
    · exact (ih member).trans (List.sublist_append_left _ _)
    · exact List.Sublist.refl _

theorem stored_mono {l l' : List (Operator × Plan)} (sub : l ⊆ l') :
    (∃ feed ∈ l, x ∈ stores feed.1) → ∃ feed ∈ l', x ∈ stores feed.1 := by
  rintro ⟨feed, inside, stored⟩
  exact ⟨feed, sub inside, stored⟩

theorem subset_append_cons {α : Type} (xs ys : List α) (x : α) : ys ⊆ xs ++ x :: ys :=
  fun _ inside => List.mem_append_right _ (List.mem_cons_of_mem _ inside)

/-- An operator above the source is fed below it, or not at all. -/
theorem spine_fed (member : x ∈ p.spine) :
    x ∈ p.unfed ∨ ∃ feed ∈ postOrder p, x ∈ stores feed.1 := by
  induction p with
  | scan | delimScan | cteScan | recursiveCteScan | resultCollector => cases member
  | unary op unaryType child ih =>
    by_cases breaks : unaryType.isSink = true
    · simp [Plan.spine, breaks] at member
    · simp only [Plan.spine, Plan.unfed, postOrder, breaks] at member ⊢
      rcases List.mem_cons.mp member with rfl | member
      · exact .inl List.mem_cons_self
      · exact (ih member).imp_left (List.mem_cons_of_mem _)
  | join op kind lhs rhs ihl ihr =>
    rcases List.mem_cons.mp member with rfl | member
    · exact .inr ⟨_, List.mem_append_right _ List.mem_cons_self, List.mem_cons_self⟩
    · exact (ihl member).imp_right (stored_mono (subset_append_cons _ _ _))
  | cte op cteScans definition query ihd ihq =>
    exact (ihq member).imp_right (stored_mono (subset_append_cons _ _ _))
  | leftDelimJoin op distinct delimScans lhs joinOp kind cachedScan rhs ihl ihr =>
    obtain rfl := List.mem_singleton.mp member
    refine .inr ⟨(⟨joinOp, .join kind⟩, rhs), ?_, List.mem_cons_self⟩
    simp [postOrder]
  | rightDelimJoin op distinct delimScans rhs joinOp kind placeholder lhs ihr ihl =>
    rcases List.mem_cons.mp member with rfl | member
    · exact .inr ⟨_, List.mem_append_right _ List.mem_cons_self, List.mem_cons_self⟩
    · exact (ihl member).imp_right (stored_mono (subset_append_cons _ _ _))

/-- Every sink stores into operators of its own. -/
theorem count_stores (p : Plan) (x : Operator) :
    (p.feeds.flatMap fun feed => stores feed.1).count x ≤ p.objects.count x := by
  induction p with
  | scan | delimScan | cteScan | recursiveCteScan => simp [Plan.feeds]
  | unary op unaryType child ih =>
    cases kind : unaryType.isSink <;>
      simp [Plan.feeds, Plan.objects, Plan.operator, List.count_cons, kind, stores] at ih ⊢ <;>
      omega
  | join op kind lhs rhs ihl ihr =>
    simp [Plan.feeds, Plan.objects, Plan.operator, List.count_cons, stores,
      List.count_append] at ihl ihr ⊢
    omega
  | cte op cteScans definition query ihd ihq =>
    simp [Plan.feeds, Plan.objects, Plan.operator, List.count_cons, stores,
      List.count_append] at ihd ihq ⊢
    omega
  | leftDelimJoin op distinct delimScans lhs joinOp kind cachedScan rhs ihl ihr =>
    simp [Plan.feeds, Plan.objects, Plan.operator, List.count_cons, stores,
      List.count_append] at ihl ihr ⊢
    omega
  | rightDelimJoin op distinct delimScans rhs joinOp kind placeholder lhs ihr ihl =>
    simp [Plan.feeds, Plan.objects, Plan.operator, List.count_cons, stores,
      List.count_append] at ihl ihr ⊢
    omega
  | resultCollector op plan ih =>
    simp [Plan.feeds, Plan.objects, Plan.operator, List.count_cons, stores] at ih ⊢
    omega

theorem stores_nodup (wf : p.WellFormed) :
    (p.feeds.flatMap fun feed => stores feed.1).Nodup := by
  refine List.nodup_iff_count_le_one.mpr fun x => (count_stores p x).trans ?_
  exact List.nodup_iff_count_le_one.mp (List.Nodup.of_map _ wf.distinct) x

theorem stores_ne_nil (sink : Operator) : stores sink ≠ [] := by
  unfold stores
  split <;> simp

theorem feeds_pairwise (wf : p.WellFormed) : p.feeds.Pairwise fun feed other =>
    List.Disjoint (stores feed.1) (stores other.1) :=
  (List.nodup_flatMap.mp (stores_nodup wf)).2

theorem feeds_nodup (wf : p.WellFormed) : p.feeds.Nodup := by
  refine (feeds_pairwise wf).imp fun {feed other} apart same => ?_
  obtain ⟨x, rest, here⟩ := List.exists_cons_of_ne_nil (stores_ne_nil feed.1)
  have inside : x ∈ stores feed.1 := by
    rw [here]
    exact List.mem_cons_self
  exact apart inside (same ▸ inside)

/-- An operator is stored into by one sink only. -/
theorem feed_unique (wf : p.WellFormed) (member : feed ∈ p.feeds) (member' : other ∈ p.feeds)
    (stored : x ∈ stores feed.1) (stored' : x ∈ stores other.1) : feed = other := by
  by_contra apart
  have symmetric : Std.Symm fun feed other : Operator × Plan =>
      List.Disjoint (stores feed.1) (stores other.1) := ⟨fun _ _ h => h.symm⟩
  exact (feeds_pairwise wf).forall member member' apart stored stored'

/-- An operator is above one source only. -/
theorem spine_unique (wf : p.WellFormed) (member : feed ∈ p.feeds) (member' : other ∈ p.feeds)
    (inside : x ∈ feed.2.spine) (inside' : x ∈ other.2.spine) : feed = other := by
  by_contra apart
  have spines := List.Nodup.of_map _ wf.spines_nodup
  have pairwise := (List.nodup_flatMap.mp (List.nodup_append.mp spines).2.1).2
  have symmetric : Std.Symm fun feed other : Operator × Plan =>
      List.Disjoint feed.2.spine other.2.spine := ⟨fun _ _ h => h.symm⟩
  exact pairwise.forall member member' apart inside inside'

theorem spine_nodup (wf : p.WellFormed) (member : feed ∈ p.feeds) : feed.2.spine.Nodup := by
  have spines := List.Nodup.of_map _ wf.spines_nodup
  exact (List.nodup_flatMap.mp (List.nodup_append.mp spines).2.1).1 feed member

/-- What is stored into is read by the sink's consumers, but for the table of a CTE. -/
theorem stores_consumers {sink : Operator} (stored : x ∈ stores sink)
    (table : ∀ scans, x.type ≠ .cte scans) : x ∈ sink.consumers := by
  obtain ⟨id, type⟩ := sink
  cases type with
  | cte scans =>
    obtain rfl := List.mem_singleton.mp stored
    exact absurd rfl (table scans)
  | leftDelimJoin distinct cachedScan => simpa [stores, Operator.consumers, or_comm] using stored
  | rightDelimJoin distinct join kind => simpa [stores, Operator.consumers, or_comm] using stored
  | _ => exact stored

/-- The consumers of a CTE that stores into a table are the scans it lists. -/
theorem stores_cte {sink : Operator} {scans : List OpId} (stored : x ∈ stores sink)
    (type : x.type = .cte scans) {scan : Operator} (scanType : scan.type = .cteScan)
    (listed : scan.id ∈ scans) : scan ∈ sink.consumers := by
  have self : x = sink := by
    unfold stores at stored
    split at stored
    · rcases List.mem_cons.mp stored with rfl | stored
      · cases type
      · obtain rfl := List.mem_singleton.mp stored
        cases type
    · rcases List.mem_cons.mp stored with rfl | stored
      · cases type
      · obtain rfl := List.mem_singleton.mp stored
        cases type
    · exact List.mem_singleton.mp stored
  obtain ⟨id, type'⟩ := scan
  subst self scanType
  rw [Operator.consumers, type]
  exact List.mem_map.mpr ⟨id, listed, rfl⟩

/-- What is fed is not among what is not. -/
theorem not_unfed (wf : p.WellFormed) (member : feed ∈ p.feeds) (member' : other ∈ p.feeds)
    (stored : x ∈ stores feed.1) (table : ∀ scans, x.type ≠ .cte scans) : x ∉ other.2.unfed := by
  intro unfed
  have apart := (List.nodup_append.mp wf.fed_nodup).2.2
  refine apart x (List.mem_flatMap.mpr ⟨feed, member, stores_consumers stored table⟩) x ?_ rfl
  exact List.mem_append_right _ (List.mem_flatMap.mpr ⟨other, member', unfed⟩)

end Feeds

section Scopes

variable (tables : List (OpId × Operator)) (sources : List (OpId × OpId))

/-- The source of the pipelines through a node. -/
def sourceOf (p : Plan) : Operator :=
  match spineEnd p with
  | .delimScan op => ⟨(lookup sources op).getD op, .unary .hashGroupBy⟩
  | q => q.operator

/-- The operator whose state the source reads. -/
def sourceCell (p : Plan) : Operator := readsFrom tables (sourceOf sources p)

/-- The data of a scan comes from outside, if the scan is of shared data at all. -/
def Known (ctes delims : List OpId) : Plan → Prop
  | .delimScan op => op ∈ delims
  | .cteScan op => op ∈ ctes
  | .recursiveCteScan _ => False
  | _ => True

/-- What the sinks of a list read as their source is stored by an earlier one, or known. -/
def Resolved (ctes delims : List OpId) (order : List (Operator × Plan)) : Prop :=
  ∀ feed ∈ order, Known ctes delims (spineEnd feed.2) ∨ ∃ other,
    [other, feed].Sublist order ∧ sourceCell tables sources feed.2 ∈ stores other.1

/-- The same of a node and all that feeds it. -/
structure Offers (ctes delims : List OpId) (p : Plan) : Prop where
  inner : Resolved tables sources ctes delims (postOrder p)
  last : Known ctes delims (spineEnd p) ∨
    ∃ other ∈ postOrder p, sourceCell tables sources p ∈ stores other.1

variable {tables sources} {ctes delims scans : List OpId} {p q : Plan}
  {first second : List (Operator × Plan)} {feed : Operator × Plan}

theorem lookup_of_mem {α : Type} {entries : List (OpId × α)} (keys : (entries.map Prod.fst).Nodup)
    {op : OpId} {a : α} (member : (op, a) ∈ entries) : lookup entries op = some a := by
  cases found : entries.find? (·.1 = op) with
  | none =>
    have := List.find?_eq_none.mp found (op, a) member
    simp at this
  | some entry =>
    have key : entry.1 = op := by simpa using List.find?_some found
    have same : entry = (op, a) :=
      List.inj_on_of_nodup_map keys (List.mem_of_find?_eq_some found) member key
    rw [lookup, found, same]
    rfl

/-- The scans of one operator lead to what they share. -/
theorem lookup_scan {α : Type} {entries : List (OpId × α)} {scans : List OpId} {a : α} {op : OpId}
    (keys : (entries.map Prod.fst).Nodup) (listed : scans.map (·, a) ⊆ entries)
    (scan : op ∈ scans) : lookup entries op = some a :=
  lookup_of_mem keys (listed (List.mem_map.mpr ⟨op, scan, rfl⟩))

theorem known_ctes (known : Known (ctes ++ scans) delims q) :
    Known ctes delims q ∨ ∃ op ∈ scans, q = .cteScan op := by
  cases q with
  | cteScan op => exact (List.mem_append.mp known).imp_right fun inside => ⟨op, inside, rfl⟩
  | _ => exact .inl known

theorem known_delims (known : Known ctes (delims ++ scans) q) :
    Known ctes delims q ∨ ∃ op ∈ scans, q = .delimScan op := by
  cases q with
  | delimScan op => exact (List.mem_append.mp known).imp_right fun inside => ⟨op, inside, rfl⟩
  | _ => exact .inl known

/-- More sinks, whose sources were known because of a sink in front. -/
theorem Resolved.append {ctes' delims' : List OpId}
    (before : Resolved tables sources ctes delims first)
    (after : Resolved tables sources ctes' delims' second)
    (known : ∀ p, Known ctes' delims' (spineEnd p) → Known ctes delims (spineEnd p) ∨
      ∃ other ∈ first, sourceCell tables sources p ∈ stores other.1) :
    Resolved tables sources ctes delims (first ++ second) := by
  intro feed member
  rcases List.mem_append.mp member with member | member
  · refine (before feed member).imp_right fun ⟨other, pair, stored⟩ => ⟨other, ?_, stored⟩
    exact pair.trans (List.sublist_append_left _ _)
  · rcases after feed member with there | ⟨other, pair, stored⟩
    · refine (known feed.2 there).imp_right fun ⟨other, inside, stored⟩ => ⟨other, ?_, stored⟩
      exact (List.singleton_sublist.mpr inside).append (List.singleton_sublist.mpr member)
    · exact .inr ⟨other, pair.trans (List.sublist_append_right _ _), stored⟩

theorem Offers.snoc (offers : Offers tables sources ctes delims p) (sink : Operator) :
    Resolved tables sources ctes delims (postOrder p ++ [(sink, p)]) := by
  intro feed member
  rcases List.mem_append.mp member with member | member
  · refine (offers.inner feed member).imp_right fun ⟨other, pair, stored⟩ => ⟨other, ?_, stored⟩
    exact pair.trans (List.sublist_append_left _ _)
  · obtain rfl := List.mem_singleton.mp member
    refine offers.last.imp_right fun ⟨other, inside, stored⟩ => ⟨other, ?_, stored⟩
    exact (List.singleton_sublist.mpr inside).append (List.Sublist.refl _)

/-- A CTE keeps its table for the scans it lists. -/
theorem sourceCell_cteScan {op : OpId} (keys : (tables.map Prod.fst).Nodup)
    (listed : scans.map (·, (⟨op, .cte scans⟩ : Operator)) ⊆ tables)
    (scan : ∃ op ∈ scans, spineEnd p = .cteScan op) :
    sourceCell tables sources p ∈ stores ⟨op, .cte scans⟩ := by
  obtain ⟨scan, inside, ends⟩ := scan
  have found := lookup_scan keys listed inside
  simp [sourceCell, sourceOf, ends, Plan.operator, readsFrom, found, stores]

/-- The scans of a delim join read its distinct keys. -/
theorem sourceCell_delimScan {distinct : OpId} (keys : (sources.map Prod.fst).Nodup)
    (listed : scans.map (·, distinct) ⊆ sources)
    (scan : ∃ op ∈ scans, spineEnd p = .delimScan op) :
    sourceCell tables sources p = ⟨distinct, .unary .hashGroupBy⟩ := by
  obtain ⟨scan, inside, ends⟩ := scan
  have found := lookup_scan keys listed inside
  simp [sourceCell, sourceOf, ends, found, readsFrom]

/-- Wherever a plan is in scope, each source finds its data stored. -/
theorem offers (inScope : p.Scoped ctes delims) (sub : delimSources p ⊆ sources)
    (keys : (sources.map Prod.fst).Nodup) (sub' : cteTables p ⊆ tables)
    (keys' : (tables.map Prod.fst).Nodup) : Offers tables sources ctes delims p := by
  induction p generalizing ctes delims with
  | scan => exact ⟨fun _ inside => absurd inside List.not_mem_nil, .inl trivial⟩
  | delimScan | cteScan =>
    exact ⟨fun _ inside => absurd inside List.not_mem_nil, .inl inScope⟩
  | recursiveCteScan => exact inScope.elim
  | unary op unaryType child ih =>
    have below := ih inScope sub sub'
    by_cases breaks : unaryType.isSink = true
    · refine ⟨?_, .inl ?_⟩
      · simpa only [postOrder, breaks, if_true] using below.snoc _
      · simp [spineEnd, breaks, Known]
    · refine ⟨?_, ?_⟩
      · simpa [postOrder, breaks] using below.inner
      · simpa [postOrder, spineEnd, sourceCell, sourceOf, breaks] using below.last
  | join op kind lhs rhs ihl ihr =>
    have build := ihr inScope.2 (List.append_subset.mp sub).1 (List.append_subset.mp sub').1
    have probe := ihl inScope.1 (List.append_subset.mp sub).2 (List.append_subset.mp sub').2
    refine ⟨?_, probe.last.imp_right (stored_mono (subset_append_cons _ _ _))⟩
    have := (build.snoc ⟨op, .join kind⟩).append probe.inner fun _ => .inl
    simpa [postOrder] using this
  | cte op cteScans definition query ihd ihq =>
    have listed := (List.append_subset.mp sub').1
    have rest := List.append_subset.mp (List.append_subset.mp sub').2
    have build := ihd inScope.1 (List.append_subset.mp sub).1 rest.1
    have probe := ihq inScope.2 (List.append_subset.mp sub).2 rest.2
    refine ⟨?_, ?_⟩
    · have := (build.snoc ⟨op, .cte cteScans⟩).append probe.inner fun p known =>
        (known_ctes known).imp_right fun scan => ⟨(⟨op, .cte cteScans⟩, definition),
          List.mem_append_right _ List.mem_cons_self, sourceCell_cteScan keys' listed scan⟩
      simpa [postOrder] using this
    · rcases probe.last with known | ⟨other, inside, stored⟩
      · refine (known_ctes known).imp_right fun scan => ⟨(⟨op, .cte cteScans⟩, definition),
          List.mem_append_right _ List.mem_cons_self, sourceCell_cteScan keys' listed scan⟩
      · exact .inr ⟨other, List.mem_append_right _ (List.mem_cons_of_mem _ inside), stored⟩
  | leftDelimJoin op distinct delimScans lhs joinOp kind cachedScan rhs ihl ihr =>
    have listed := (List.append_subset.mp sub).1
    have rest := List.append_subset.mp (List.append_subset.mp sub).2
    have duplicates := ihl inScope.1 rest.1 (List.append_subset.mp sub').1
    have build := ihr inScope.2 rest.2 (List.append_subset.mp sub').2
    refine ⟨?_, .inl trivial⟩
    have := (duplicates.snoc ⟨op, .leftDelimJoin distinct cachedScan⟩).append
      (build.snoc ⟨joinOp, .join kind⟩) fun p known => (known_delims known).imp_right
        fun scan => ⟨(⟨op, .leftDelimJoin distinct cachedScan⟩, lhs),
          List.mem_append_right _ List.mem_cons_self, by
            rw [sourceCell_delimScan keys listed scan]
            simp [stores]⟩
    simpa [postOrder] using this
  | rightDelimJoin op distinct delimScans rhs joinOp kind placeholder lhs ihr ihl =>
    have listed := (List.append_subset.mp sub).1
    have rest := List.append_subset.mp (List.append_subset.mp sub).2
    have build := ihr inScope.1 rest.1 (List.append_subset.mp sub').1
    have probe := ihl inScope.2.1 rest.2 (List.append_subset.mp sub').2
    have kept (p : Plan) (scan : ∃ op ∈ delimScans, spineEnd p = .delimScan op) :
        sourceCell tables sources p ∈ stores ⟨op, .rightDelimJoin distinct joinOp kind⟩ := by
      rw [sourceCell_delimScan keys listed scan]
      simp [stores]
    refine ⟨?_, ?_⟩
    · have := (build.snoc ⟨op, .rightDelimJoin distinct joinOp kind⟩).append probe.inner
        fun p known => (known_delims known).imp_right fun scan =>
          ⟨(⟨op, .rightDelimJoin distinct joinOp kind⟩, rhs),
            List.mem_append_right _ List.mem_cons_self, kept p scan⟩
      simpa [postOrder] using this
    · rcases probe.last with known | ⟨other, inside, stored⟩
      · exact (known_delims known).imp_right fun scan =>
          ⟨(⟨op, .rightDelimJoin distinct joinOp kind⟩, rhs),
            List.mem_append_right _ List.mem_cons_self, kept lhs scan⟩
      · exact .inr ⟨other, List.mem_append_right _ (List.mem_cons_of_mem _ inside), stored⟩
  | resultCollector op plan ih =>
    have below := ih inScope sub sub'
    exact ⟨below.snoc _, .inl trivial⟩

end Scopes

section Conflicts

variable (m : Methods R S) (tables : List (OpId × Operator)) (sources : List (OpId × OpId))

/-- What a group does: all relations from its source reach its sink. -/
def runFeed (feed : Operator × Plan) : Action Operator S PUnit :=
  getData m tables (sourceOf sources feed.2) >>= fun r =>
    passThrough m feed.2.spine [r] >>= fun rs => forM rs (sink m feed.1)

def feedWrites (feed : Operator × Plan) : Set Operator :=
  {x | x ∈ stores feed.1 ∨ x ∈ feed.2.spine}

def feedUses (feed : Operator × Plan) : Set Operator :=
  insert (sourceCell tables sources feed.2) (feedWrites feed)

/-- One group stores what the other reads. -/
def FeedsInto (feed other : Operator × Plan) : Prop :=
  ∃ x ∈ stores feed.1, x ∈ other.2.spine ∨ x = sourceCell tables sources other.2

variable {m tables sources} {p plan : Plan} {feed other : Operator × Plan} {x op : Operator}
  {ctes delims : List OpId}

theorem local_passThrough (spine : List Operator) (rs : List R) :
    Local {x | x ∈ spine} {x | x ∈ spine} (passThrough m spine rs) := by
  induction spine with
  | nil => exact (local_pure rs).mono (Set.empty_subset _) (Set.empty_subset _) subset_rfl
  | cons op rest ih =>
    have more : {x | x ∈ rest} ⊆ {x | x ∈ op :: rest} := fun _ h => List.mem_cons_of_mem _ h
    have here : {op} ⊆ {x | x ∈ op :: rest} :=
      Set.singleton_subset_iff.mpr List.mem_cons_self
    exact (ih.mono more more subset_rfl).bind fun outs =>
      (local_onCell op _).mono here here subset_rfl

theorem local_sink (op : Operator) (r : R) :
    Local {x | x ∈ stores op} {x | x ∈ stores op} (sink m op r) := by
  refine Local.forM subset_rfl fun x stored => ?_
  have here : {x} ⊆ {x | x ∈ stores op} := Set.singleton_subset_iff.mpr stored
  exact (local_onCell x _).mono here here subset_rfl

theorem local_runFeed (feed : Operator × Plan) :
    Local (feedUses tables sources feed) (feedWrites feed) (runFeed m tables sources feed) := by
  have sub : feedWrites feed ⊆ feedUses tables sources feed := Set.subset_insert _ _
  have spine : {x | x ∈ feed.2.spine} ⊆ feedWrites feed := fun _ h => .inr h
  have stored : {x | x ∈ stores feed.1} ⊆ feedWrites feed := fun _ h => .inl h
  have source : {sourceCell tables sources feed.2} ⊆ feedUses tables sources feed :=
    Set.singleton_subset_iff.mpr (Set.mem_insert _ _)
  refine ((local_readCell _ _).mono source (Set.empty_subset _) sub).bind fun r => ?_
  refine ((local_passThrough _ _).mono (spine.trans sub) spine sub).bind fun rs => ?_
  exact Local.forM sub fun r _ => (local_sink _ _).mono (stored.trans sub) stored sub

/-- An operator that can be a source: a leaf of the tree or a sink. -/
def IsSource (x : Operator) : Prop :=
  (∀ unaryType, x.type = .unary unaryType → unaryType.isSink = true) ∧
    (∀ kind, x.type ≠ .join kind) ∧ ∀ scans, x.type ≠ .cte scans

theorem spine_type (member : x ∈ p.spine) :
    (∃ unaryType, x.type = .unary unaryType ∧ unaryType.isSink = false) ∨
      ∃ kind, x.type = .join kind := by
  induction p with
  | scan | delimScan | cteScan | recursiveCteScan | resultCollector => cases member
  | unary op unaryType child ih =>
    by_cases breaks : unaryType.isSink = true
    · simp [Plan.spine, breaks] at member
    · simp only [Plan.spine, breaks] at member
      rcases List.mem_cons.mp member with rfl | member
      · exact .inl ⟨unaryType, rfl, by simpa using breaks⟩
      · exact ih member
  | join op kind lhs rhs ihl ihr =>
    rcases List.mem_cons.mp member with rfl | member
    · exact .inr ⟨kind, rfl⟩
    · exact ihl member
  | cte op cteScans definition query ihd ihq => exact ihq member
  | leftDelimJoin op distinct delimScans lhs joinOp kind cachedScan rhs ihl ihr =>
    obtain rfl := List.mem_singleton.mp member
    exact .inr ⟨kind, rfl⟩
  | rightDelimJoin op distinct delimScans rhs joinOp kind placeholder lhs ihr ihl =>
    rcases List.mem_cons.mp member with rfl | member
    · exact .inr ⟨kind, rfl⟩
    · exact ihl member

theorem spine_not_isSource (member : x ∈ p.spine) : ¬ IsSource x := by
  intro source
  rcases spine_type member with ⟨unaryType, type, streams⟩ | ⟨kind, type⟩
  · exact absurd (source.1 unaryType type) (by simp [streams])
  · exact source.2.1 kind type

theorem spine_not_cte (member : x ∈ p.spine) (scans : List OpId) : x.type ≠ .cte scans := by
  rcases spine_type member with ⟨unaryType, type, -⟩ | ⟨kind, type⟩ <;> simp [type]

theorem isSource_of_isSink {op : OpId} {unaryType : UnaryType} (breaks : unaryType.isSink = true) :
    IsSource ⟨op, .unary unaryType⟩ := by
  refine ⟨?_, ?_, ?_⟩
  · intro _ type
    cases type
    exact breaks
  · intro _ type
    cases type
  · intro _ type
    cases type

theorem spineEnd_isSource (p : Plan) : IsSource (spineEnd p).operator := by
  induction p with
  | scan | delimScan | cteScan | recursiveCteScan | resultCollector | leftDelimJoin =>
    refine ⟨?_, ?_, ?_⟩ <;> (intro _ type; cases type)
  | unary op unaryType child ih =>
    by_cases breaks : unaryType.isSink = true
    · simp only [spineEnd, breaks, if_true]
      exact isSource_of_isSink breaks
    · simpa [spineEnd, breaks] using ih
  | join op kind lhs rhs ihl ihr => exact ihl
  | cte op cteScans definition query ihd ihq => exact ihq
  | rightDelimJoin op distinct delimScans rhs joinOp kind placeholder lhs ihr ihl => exact ihl

theorem sourceOf_isSource (sources : List (OpId × OpId)) (p : Plan) :
    IsSource (sourceOf sources p) := by
  unfold sourceOf
  split
  · exact isSource_of_isSink rfl
  · exact spineEnd_isSource p

theorem cteTables_type {entry : OpId × Operator} (member : entry ∈ cteTables p) :
    ∃ scans, entry.2.type = .cte scans ∧ entry.1 ∈ scans := by
  induction p with
  | scan | delimScan | cteScan | recursiveCteScan => cases member
  | unary op unaryType child ih => exact ih member
  | join op kind lhs rhs ihl ihr => exact (List.mem_append.mp member).elim ihr ihl
  | cte op cteScans definition query ihd ihq =>
    rcases List.mem_append.mp member with here | below
    · obtain ⟨scan, inside, rfl⟩ := List.mem_map.mp here
      exact ⟨cteScans, rfl, inside⟩
    · exact (List.mem_append.mp below).elim ihd ihq
  | leftDelimJoin op distinct delimScans lhs joinOp kind cachedScan rhs ihl ihr =>
    exact (List.mem_append.mp member).elim ihl ihr
  | rightDelimJoin op distinct delimScans rhs joinOp kind placeholder lhs ihr ihl =>
    exact (List.mem_append.mp member).elim ihr ihl
  | resultCollector op plan ih => exact ih member

/-- A source that is not a scan of a CTE reads its own state. -/
theorem readsFrom_eq (plan : Plan) (x : Operator) : readsFrom (cteTables plan) x = x ∨
    x.type = .cteScan ∧ ∃ scans,
      (readsFrom (cteTables plan) x).type = .cte scans ∧ x.id ∈ scans := by
  obtain ⟨id, type⟩ := x
  unfold readsFrom
  cases type with
  | cteScan =>
    cases found : lookup (cteTables plan) id with
    | none => exact .inl rfl
    | some table =>
      obtain ⟨scans, type, inside⟩ := cteTables_type (PipelineOrder.lookup_mem found)
      exact .inr ⟨rfl, scans, type, inside⟩
  | _ => exact .inl rfl

/-- What a source reads is not above any source. -/
theorem sourceCell_spine (p : Plan) : sourceCell (cteTables plan) sources p ∉ other.2.spine := by
  intro member
  rcases readsFrom_eq plan (sourceOf sources p) with same | ⟨-, scans, type, -⟩
  · refine spine_not_isSource member ?_
    rw [sourceCell, same]
    exact sourceOf_isSource sources p
  · exact spine_not_cte member scans type

/-- A source that does not scan shared data is fed below it, or not at all. -/
theorem spineEnd_fed (known : Known [] [] (spineEnd p)) : (spineEnd p).operator ∈ p.unfed ∨
    ∃ feed ∈ postOrder p, (spineEnd p).operator ∈ stores feed.1 := by
  induction p with
  | scan op scanType => exact .inl List.mem_cons_self
  | delimScan | cteScan => exact absurd known List.not_mem_nil
  | recursiveCteScan => exact known.elim
  | unary op unaryType child ih =>
    by_cases breaks : unaryType.isSink = true
    · refine .inr ⟨(⟨op, .unary unaryType⟩, child), ?_, ?_⟩
      · simp [postOrder, breaks]
      · simp [spineEnd, breaks, Plan.operator, stores]
    · simp only [spineEnd, postOrder, Plan.unfed, breaks] at known ⊢
      exact (ih known).imp_left (List.mem_cons_of_mem _)
  | join op kind lhs rhs ih | cte op cteScans rhs lhs _ ih
  | rightDelimJoin op distinct delimScans rhs joinOp kind placeholder lhs _ ih =>
    exact (ih known).imp_right (stored_mono (subset_append_cons _ _ _))
  | leftDelimJoin op distinct delimScans lhs joinOp kind cachedScan rhs =>
    refine .inr ⟨(⟨op, .leftDelimJoin distinct cachedScan⟩, lhs), ?_, ?_⟩
    · simp [postOrder]
    · simp [spineEnd, Plan.operator, stores]
  | resultCollector op plan =>
    refine .inr ⟨(⟨op, .resultCollector⟩, plan), ?_, ?_⟩
    · simp [postOrder]
    · simp [spineEnd, Plan.operator, stores]

theorem sourceCell_of_known (known : Known [] [] (spineEnd p)) :
    sourceCell tables sources p = (spineEnd p).operator := by
  unfold sourceCell sourceOf
  cases ends : spineEnd p <;> rw [ends] at known
  case delimScan | cteScan => exact absurd known List.not_mem_nil
  case recursiveCteScan => exact known.elim
  all_goals rfl

/-- Two groups are independent, or one stores what the other reads. -/
theorem independent_or (wf : plan.WellFormed) (member : feed ∈ plan.feeds)
    (member' : other ∈ plan.feeds) (apart : feed ≠ other) :
    Independent (feedUses (cteTables plan) sources) feedWrites feed other ∨
      FeedsInto (cteTables plan) sources feed other ∨
      FeedsInto (cteTables plan) sources other feed := by
  by_contra conflict
  obtain ⟨dependent, forth, back⟩ := not_or.mp conflict |>.imp_right not_or.mp
  -- a cell that one group writes and the other uses is stored by one of them
  have disjoint {feed other : Operator × Plan} (member : feed ∈ plan.feeds)
      (member' : other ∈ plan.feeds) (apart : feed ≠ other)
      (forth : ¬ FeedsInto (cteTables plan) sources feed other)
      (back : ¬ FeedsInto (cteTables plan) sources other feed) :
      Disjoint (feedWrites feed) (feedUses (cteTables plan) sources other) := by
    refine Set.disjoint_left.mpr fun x written used => ?_
    rcases written with stored | inside <;> rcases used with rfl | stored' | inside'
    · exact forth ⟨_, stored, .inr rfl⟩
    · exact apart (feed_unique wf member member' stored stored')
    · exact forth ⟨x, stored, .inl inside'⟩
    · exact sourceCell_spine other.2 inside
    · exact back ⟨x, stored', .inl inside⟩
    · exact apart (spine_unique wf member member' inside inside')
  exact dependent ⟨disjoint member member' apart forth back,
    disjoint member' member (Ne.symm apart) back forth⟩

/-- A sink is run before what reads it, from the bottom up. -/
theorem feedsInto_postOrder (wf : plan.WellFormed)
    (offers : Offers (cteTables plan) sources [] [] plan) (member : feed ∈ plan.feeds)
    (member' : other ∈ plan.feeds) (into : FeedsInto (cteTables plan) sources feed other) :
    [feed, other].Sublist (postOrder plan) := by
  obtain ⟨x, stored, used⟩ := into
  have perm := postOrder_perm plan
  have inside := perm.mem_iff.mpr member'
  have fed (found : ∃ feed ∈ postOrder other.2, x ∈ stores feed.1) :
      [feed, other].Sublist (postOrder plan) := by
    obtain ⟨feed', inside', stored'⟩ := found
    have nested := postOrder_nested inside
    have known := nested.subset (List.mem_append_left _ inside')
    obtain rfl := feed_unique wf member (perm.mem_iff.mp known) stored stored'
    exact ((List.singleton_sublist.mpr inside').append (List.Sublist.refl _)).trans nested
  have shared (known : ¬ Known [] [] (spineEnd other.2))
      (same : x = sourceCell (cteTables plan) sources other.2) :
      [feed, other].Sublist (postOrder plan) := by
    rcases offers.inner other inside with there | ⟨feed', pair, stored'⟩
    · exact absurd there known
    · have known' := perm.mem_iff.mp (pair.subset List.mem_cons_self)
      obtain rfl := feed_unique wf member known' stored (same ▸ stored')
      exact pair
  rcases used with above | same
  · rcases spine_fed above with unfed | found
    · exact absurd unfed (not_unfed wf member member' stored (spine_not_cte above))
    · exact fed found
  · by_cases known : Known [] [] (spineEnd other.2)
    · rw [sourceCell_of_known known] at same
      have table := (spineEnd_isSource other.2).2.2
      rw [← same] at table
      rcases spineEnd_fed known with unfed | found
      · exact absurd (same ▸ unfed) (not_unfed wf member member' stored table)
      · exact fed (same ▸ found)
    · exact shared known same

end Conflicts

section Groups

variable {m : Methods R S} {tables : List (OpId × Operator)} {sources : List (OpId × OpId)}
  {plan : Plan} {feed other : Operator × Plan} {y : MetaPipeline} {scheduled : List Pipeline}

theorem sourceFor_eq (keys : (sources.map Prod.fst).Nodup) {p : Plan} {source : Operator}
    (serves : SourceFor sources (spineEnd p) source) : source = sourceOf sources p := by
  unfold sourceOf
  cases ends : spineEnd p <;> rw [ends] at serves
  case delimScan op =>
    obtain ⟨distinct, member, rfl⟩ := serves
    simp only [lookup_of_mem keys member, Option.getD_some]
  all_goals exact serves

theorem runPipeline_ready {p : Pipeline} {source op : Operator} (starts : p.source = some source)
    (ends : p.sink = some op) : runPipeline m tables p.ready =
      runFrom m tables (sink m op) (source, p.operators) := by
  have starts' : p.ready.source = some source := starts
  have ends' : p.ready.sink = some op := ends
  have operators : p.ready.operators = p.operators.reverse := rfl
  simp only [runPipeline, starts', ends', operators, List.foldlM_reverse]
  rfl

theorem isScheduled_join {p : Pipeline} {op : Operator} (starts : p.source = some op)
    (join : op.isJoinSource = true) : isScheduled p = passesStored op := by
  obtain ⟨id, type⟩ := op
  unfold isScheduled
  rw [starts]
  cases type with
  | join kind =>
    cases kind with
    | hashJoin => rfl
    | nestedLoopJoin joinType => exact join.symm
  | _ => cases join

theorem isScheduled_source {p : Pipeline} {op : Operator} (starts : p.source = some op)
    (source : IsSource op) : isScheduled p = true := by
  obtain ⟨id, type⟩ := op
  unfold isScheduled
  rw [starts]
  cases type with
  | join kind => exact absurd rfl (source.2.1 kind)
  | _ => rfl

/-- The child pipelines of a group that are run. -/
theorem forM_children {op : Operator} {children : List Pipeline}
    {splits : List (List Operator × Operator)}
    (view : children.map (fun c => (c.operators, c.source)) =
      splits.map fun split => ([] ++ split.1, some split.2))
    (joins : ∀ split ∈ splits, split.2.isJoinSource = true)
    (sinks : ∀ c ∈ children, c.sink = some op) :
    forM (children.filter isScheduled) (fun c => runPipeline m tables c.ready) =
      forM ((splits.filter fun split => passesStored split.2).map
        fun split => (split.2, split.1)) (runFrom m tables (sink m op)) := by
  induction children generalizing splits with
  | nil =>
    obtain rfl := List.map_eq_nil_iff.mp view.symm
    rfl
  | cons c children ih =>
    obtain ⟨split, splits, rfl, same, view⟩ := List.map_eq_cons_iff.mp view.symm
    obtain ⟨operators, source⟩ := Prod.mk.inj same
    have rest := ih view.symm (fun split inside => joins split (List.mem_cons_of_mem _ inside))
      fun c inside => sinks c (List.mem_cons_of_mem _ inside)
    have scheduled := isScheduled_join source.symm (joins split List.mem_cons_self)
    cases passes : passesStored split.2 with
    | false =>
      rw [List.filter_cons_of_neg (by simp [scheduled, passes]),
        List.filter_cons_of_neg (by simp [passes])]
      exact rest
    | true =>
      rw [List.filter_cons_of_pos (by simp [scheduled, passes]),
        List.filter_cons_of_pos (by simp [passes]), List.map_cons, List.forM_cons,
        List.forM_cons, rest,
        runPipeline_ready source.symm (sinks c List.mem_cons_self), ← operators]
      rfl

/-- What the executor runs of a group. -/
theorem forM_emits (wf : plan.WellFormed) (keys : (sources.map Prod.fst).Nodup)
    (member : feed ∈ plan.feeds) (apart : ∀ op ∈ feed.2.spine, op ∉ stores feed.1)
    (group : PathGroup sources feed.2 (some feed.1) y) :
    forM (scheduleTasks.emits y.ready) (runPipeline m tables) = runFeed m tables sources feed := by
  obtain ⟨source, starts, serves⟩ := group.source
  obtain rfl := sourceFor_eq keys serves
  obtain ⟨view, children⟩ := group.children
  have emits : scheduleTasks.emits y.ready = (y.pipelines.filter isScheduled).map
      Pipeline.ready := by
    change y.ready.pipelines.filter isScheduled = _
    rw [ready_pipelines, List.filter_map]
    rfl
  have joins : ∀ split ∈ sourceSplits feed.2.spine, split.2.isJoinSource = true :=
    fun split inside => (sourceSplits_split inside).1
  rw [emits, List.forM_map, MetaPipeline.pipelines,
    List.filter_cons_of_pos (isScheduled_source starts (sourceOf_isSource sources feed.2)),
    List.forM_cons, forM_children view joins fun c inside => (children c inside).1,
    runPipeline_ready starts group.baseSink, group.operators]
  exact forM_groupOf feed.2.spine (spine_nodup wf member) (local_sink feed.1) apart

/-- The schedule as a list of groups. -/
theorem schedule_groups (wf : plan.WellFormed) (inScope : plan.Scoped [] []) {fuel : Nat}
    (returns : initializeInternal plan fuel = .ok (some scheduled)) :
    ∃ metas sched : List MetaPipeline,
      List.Forall₂ (fun feed y => PathGroup (delimSources plan) feed.2 (some feed.1) y)
        plan.feeds metas ∧
      (metas.map MetaPipeline.ready).Perm sched ∧
      scheduled = sched.flatMap scheduleTasks.emits ∧
      Topological (metas.map MetaPipeline.ready) scheduled := by
  obtain ⟨root, scheduled', built, scheduling⟩ := initializeInternal_scheduling wf inScope
  obtain ⟨⟨root', st⟩, builds, ready⟩ := FallibleMaps.bind_ok_iff.mp built
  have same : root'.ready = root.ready := Except.ok.inj ready
  have metas : root'.descendants.map MetaPipeline.ready =
      root.descendants.map MetaPipeline.ready := by
    rw [← descendants_ready, ← descendants_ready, same]
  have unique : scheduled = scheduled' := by
    have returns' := scheduling.returns
    simp only [initializeInternal, built, PipelineGrowth.ok_bind] at returns returns'
    obtain ⟨s, loop, rfl⟩ := Option.map_eq_some_iff.mp (Except.ok.inj returns)
    obtain ⟨s', loop', rfl⟩ := Option.map_eq_some_iff.mp (Except.ok.inj returns')
    rw [scheduleLoop_unique _ loop loop']
  subst unique
  have topological := scheduling.topological wf
  obtain ⟨sched, perm, -, order⟩ := scheduling.order
  refine ⟨root'.descendants, sched, ?_, ?_, order, ?_⟩
  · exact (pathGroups_of_builds wf (PipelineGrowth.buildPipelines_builds builds)).2
  · rw [metas]
    exact perm.symm
  · rwa [metas]

variable {order : List (Operator × Plan)} {sched : List MetaPipeline}

/-- The executor's groups run what feeds the sinks, in the order of the schedule. -/
theorem forM_schedule (wf : plan.WellFormed)
    (keys : ((delimSources plan).map Prod.fst).Nodup)
    (apart : ∀ feed ∈ plan.feeds, ∀ op ∈ feed.2.spine, op ∉ stores feed.1)
    (sub : order ⊆ plan.feeds)
    (groups : List.Forall₂ (fun feed x => ∃ y : MetaPipeline,
      PathGroup (delimSources plan) feed.2 (some feed.1) y ∧ y.ready = x) order sched) :
    forM (sched.flatMap scheduleTasks.emits) (runPipeline m tables) =
      forM order (runFeed m tables (delimSources plan)) := by
  induction groups with
  | nil => rfl
  | cons here _ ih =>
    obtain ⟨y, group, rfl⟩ := here
    obtain ⟨member, rest⟩ := List.cons_subset.mp sub
    rw [List.flatMap_cons, List.forM_append, List.forM_cons, ih rest,
      forM_emits wf keys member (apart _ member) group]

lemma forall₂_sublist {α β : Type} {r : α → β → Prop} {xs ys : List α} {zs : List β}
    (sub : xs.Sublist ys) (all : List.Forall₂ r ys zs) :
    ∃ ws, List.Forall₂ r xs ws ∧ ws.Sublist zs := by
  induction sub generalizing zs with
  | slnil => exact ⟨[], .nil, List.nil_sublist _⟩
  | cons _ _ ih =>
    cases all with
    | cons _ rest =>
      obtain ⟨ws, related, sub⟩ := ih rest
      exact ⟨ws, related, sub.trans (List.sublist_cons_self _ _)⟩
  | cons_cons _ _ ih =>
    cases all with
    | cons here rest =>
      obtain ⟨ws, related, sub⟩ := ih rest
      exact ⟨_, .cons here related, sub.cons_cons _⟩

lemma pair_or {α : Type} {xs : List α} {a b : α} (ha : a ∈ xs) (hb : b ∈ xs) (apart : a ≠ b) :
    [a, b].Sublist xs ∨ [b, a].Sublist xs := by
  obtain ⟨l, r, rfl⟩ := List.append_of_mem ha
  rcases List.mem_append.mp hb with hb | hb
  · exact .inr ((List.singleton_sublist.mpr hb).append
      (List.singleton_sublist.mpr List.mem_cons_self))
  · rcases List.mem_cons.mp hb with same | hb
    · exact absurd same.symm apart
    · exact .inl (((List.singleton_sublist.mpr hb).cons_cons a).trans
        (List.sublist_append_right _ _))

/-- A sink is scheduled before what reads it. -/
theorem feedsInto_schedule
    (groups : List.Forall₂ (fun feed x => ∃ y : MetaPipeline,
      PathGroup (delimSources plan) feed.2 (some feed.1) y ∧ y.ready = x) order sched)
    (keys : ((delimSources plan).map Prod.fst).Nodup) {metas : List MetaPipeline}
    (topological : Topological metas (sched.flatMap scheduleTasks.emits))
    (member : feed ∈ order) (member' : other ∈ order) (apart : feed ≠ other)
    (into : FeedsInto (cteTables plan) (delimSources plan) feed other) :
    [feed, other].Sublist order := by
  refine (pair_or member member' apart).resolve_right fun pair => ?_
  obtain ⟨ws, related, sub⟩ := forall₂_sublist pair groups
  obtain ⟨_, rest, ⟨y', group', rfl⟩, last, rfl⟩ := List.forall₂_cons_left_iff.mp related
  obtain ⟨_, none, ⟨y, group, rfl⟩, nothing, rfl⟩ := List.forall₂_cons_left_iff.mp last
  obtain rfl := List.forall₂_nil_left_iff.mp nothing
  -- the base pipelines of both groups are run
  have run {feed : Operator × Plan} {y : MetaPipeline}
      (group : PathGroup (delimSources plan) feed.2 (some feed.1) y) :
      y.base.source = some (sourceOf (delimSources plan) feed.2) ∧
        y.base.ready ∈ scheduleTasks.emits y.ready := by
    obtain ⟨source, starts, serves⟩ := group.source
    obtain rfl := sourceFor_eq keys serves
    refine ⟨starts, List.mem_filter.mpr ⟨?_, ?_⟩⟩
    · rw [ready_pipelines]
      exact List.mem_cons_self
    · exact isScheduled_source (p := y.base.ready) starts (sourceOf_isSource _ _)
  obtain ⟨starts, emitted⟩ := run group
  obtain ⟨starts', emitted'⟩ := run group'
  have back : [y'.base.ready, y.base.ready].Sublist (sched.flatMap scheduleTasks.emits) := by
    refine List.Sublist.trans ?_ (sub.flatMap scheduleTasks.emits)
    simpa using (List.singleton_sublist.mpr emitted').append (List.singleton_sublist.mpr emitted)
  obtain ⟨x, stored, used⟩ := into
  have ends : y.base.ready.sink = some feed.1 := group.baseSink
  have reads : ∃ op ∈ feed.1.consumers, op ∈ PipelineReaders.uses y'.base.ready := by
    have source : sourceOf (delimSources plan) other.2 ∈ PipelineReaders.uses y'.base.ready := by
      refine List.mem_append_left _ ?_
      change _ ∈ y'.base.source.toList
      rw [starts']
      exact List.mem_singleton_self _
    rcases used with above | rfl
    · refine ⟨x, stores_consumers stored (spine_not_cte above), List.mem_append_right _ ?_⟩
      change x ∈ y'.base.operators.reverse
      rwa [List.mem_reverse, group'.operators]
    · rcases readsFrom_eq plan (sourceOf (delimSources plan) other.2) with
        same | ⟨scan, scans, type, inside⟩
      · rw [sourceCell, same] at stored
        exact ⟨_, stores_consumers stored (sourceOf_isSource _ _).2.2, source⟩
      · refine ⟨_, ?_, source⟩
        exact stores_cte stored type scan inside
  obtain ⟨op, consumer, reader⟩ := reads
  have forth := topological.stored y.base.ready (back.subset (by simp)) y'.base.ready
    (back.subset (by simp)) feed.1 ends op consumer reader
  have distinct := List.Nodup.of_map _ topological.once
  exact not_both_orders distinct forth back

end Groups

section Sinks

variable {m : Methods R S} {op : Operator}

def storeAll (m : Methods R S) (rs : List R) (op : Operator) : Action Operator S PUnit :=
  onCell op fun s => (sinkAll m op rs s).map (⟨⟩, ·)

theorem stores_self_nodup (op : Operator) : (stores op).Nodup := by
  unfold stores
  split <;> simp

/-- A sink stores relation by relation; it could as well store operator by operator. -/
theorem forM_sink (rs : List R) : forM rs (sink m op) = forM (stores op) (storeAll m rs) := by
  induction rs with
  | nil =>
    have nothing (x : Operator) : storeAll m [] x = pure ⟨⟩ := (pure_eq_onCell x).symm
    rw [List.forM_nil, show storeAll m [] = fun _ => pure ⟨⟩ from funext nothing]
    induction stores op with
    | nil => rfl
    | cons x xs ih => rw [List.forM_cons, pure_bind, ← ih]
  | cons r rs ih =>
    rw [List.forM_cons, ih]
    refine (forM_cells _ _ (stores_self_nodup op)).trans ?_
    congr 1
    funext x
    rw [storeAll]
    congr 1
    funext s
    simp only [sinkAll, List.foldlM_cons]
    cases m.sink x r s <;> rfl

end Sinks

section Trees

variable (m : Methods R S) (tables : List (OpId × Operator)) (sources : List (OpId × OpId))

/-- All groups below a node, and what then reaches the node. -/
def runTree (p : Plan) : Action Operator S (List R) :=
  forM (postOrder p) (runFeed m tables sources) >>= fun _ =>
    getData m tables (sourceOf sources p) >>= fun r => passThrough m p.spine [r]

/-- The scans of shared data give what the stores hold that they read. -/
structure Holds (shared : Shared R) (ctes delims : List OpId) (own : List Operator)
    (c : Operator → S) : Prop where
  delims : ∀ op ∈ delims, ∃ distinct, lookup sources op = some distinct ∧
    ⟨distinct, .unary .hashGroupBy⟩ ∉ own ∧ shared.delims op =
      m.getData ⟨distinct, .unary .hashGroupBy⟩ (c ⟨distinct, .unary .hashGroupBy⟩)
  ctes : ∀ op ∈ ctes, ∃ table, lookup tables op = some table ∧ table ∉ own ∧
    shared.ctes op = m.getData ⟨op, .cteScan⟩ (c table)

/-- The operators of a node are in their initial states, and what is shared is there. -/
structure Ready (shared : Shared R) (ctes delims : List OpId) (p : Plan) (c : Operator → S) :
    Prop where
  fresh : ∀ x ∈ p.objects, c x = m.initial x
  holds : Holds m tables sources shared ctes delims p.objects c

variable {m tables sources} {p q : Plan} {c c' : Operator → S} {rs : List R}
  {shared : Shared R} {ctes delims : List OpId} {feed : Operator × Plan}

/-- A node below one that is ready. -/
theorem Ready.below (ready : Ready m tables sources shared ctes delims p c)
    (less : q.objects ⊆ p.objects) (inner : ∀ x ∈ q.objects, c' x = c x)
    (outer : ∀ x ∉ p.objects, c' x = c x) : Ready m tables sources shared ctes delims q c' where
  fresh x inside := (inner x inside).trans (ready.fresh x (less inside))
  holds :=
    { delims := fun op inside => by
        obtain ⟨distinct, found, out, value⟩ := ready.holds.delims op inside
        exact ⟨distinct, found, fun h => out (less h), by rw [value, outer _ out]⟩
      ctes := fun op inside => by
        obtain ⟨table, found, out, value⟩ := ready.holds.ctes op inside
        exact ⟨table, found, fun h => out (less h), by rw [value, outer _ out]⟩ }

theorem Ready.withDelims (ready : Ready m tables sources shared ctes delims p c)
    {scans : List OpId} {distinct : OpId}
    (listed : ∀ op ∈ scans, lookup sources op = some distinct)
    (out : (⟨distinct, .unary .hashGroupBy⟩ : Operator) ∉ p.objects) :
    Ready m tables sources (shared.withDelims scans (m.getData ⟨distinct, .unary .hashGroupBy⟩
      (c ⟨distinct, .unary .hashGroupBy⟩))) ctes (delims ++ scans) p c where
  fresh := ready.fresh
  holds :=
    { delims := fun op inside => by
        by_cases here : op ∈ scans
        · exact ⟨distinct, listed op here, out, if_pos here⟩
        · have before := (List.mem_append.mp inside).resolve_right here
          obtain ⟨distinct', found, out', value⟩ := ready.holds.delims op before
          exact ⟨distinct', found, out', (if_neg here).trans value⟩
      ctes := ready.holds.ctes }

theorem Ready.withCtes (ready : Ready m tables sources shared ctes delims p c)
    {scans : List OpId} {table : Operator} (listed : ∀ op ∈ scans, lookup tables op = some table)
    (out : table ∉ p.objects) :
    Ready m tables sources (shared.withCtes scans fun op => m.getData ⟨op, .cteScan⟩ (c table))
      (ctes ++ scans) delims p c where
  fresh := ready.fresh
  holds :=
    { delims := ready.holds.delims
      ctes := fun op inside => by
        by_cases here : op ∈ scans
        · exact ⟨table, listed op here, out, if_pos here⟩
        · have before := (List.mem_append.mp inside).resolve_right here
          obtain ⟨table', found, out', value⟩ := ready.holds.ctes op before
          exact ⟨table', found, out', (if_neg here).trans value⟩ }

theorem spine_objects : p.spine ⊆ p.objects := by
  intro x inside
  refine List.count_pos_iff.mp (Nat.lt_of_lt_of_le ?_ (count_spines p x))
  exact List.count_pos_iff.mpr (List.mem_append_left _ inside)

theorem feedWrites_objects (member : feed ∈ postOrder p) :
    feedWrites feed ⊆ {x | x ∈ p.objects} := by
  have known := (postOrder_perm p).mem_iff.mp member
  intro x written
  refine List.count_pos_iff.mp ?_
  rcases written with stored | above
  · refine Nat.lt_of_lt_of_le ?_ (count_stores p x)
    exact List.count_pos_iff.mpr (List.mem_flatMap.mpr ⟨feed, known, stored⟩)
  · refine Nat.lt_of_lt_of_le ?_ (count_spines p x)
    exact List.count_pos_iff.mpr
      (List.mem_append_right _ (List.mem_flatMap.mpr ⟨feed, known, above⟩))

/-- A node changes the states of its own operators. -/
theorem runTree_frame (run : (runTree m tables sources p).run c = some (rs, c')) :
    ∀ x ∉ p.objects, c' x = c x := by
  have sub : {x | x ∈ p.objects} ⊆ (Set.univ : Set Operator) := Set.subset_univ _
  have loc : Local Set.univ {x | x ∈ p.objects} (runTree m tables sources p) := by
    refine (Local.forM sub fun feed member => ?_).bind fun _ => ?_
    · exact (local_runFeed feed).mono (Set.subset_univ _) (feedWrites_objects member) sub
    · refine ((local_readCell _ _).mono (Set.subset_univ _) (Set.empty_subset _) sub).bind
        fun r => ?_
      exact (local_passThrough _ _).mono (Set.subset_univ _) (fun _ h => spine_objects h) sub
  exact fun x out => loc.frame run out

theorem passThrough_cons (op : Operator) (rest : List Operator) (rs : List R) :
    passThrough m (op :: rest) rs = passThrough m rest rs >>= stage m op := rfl

theorem runTree_stream {op : OpId} {unaryType : UnaryType} {child : Plan}
    (streams : unaryType.isSink = false) :
    runTree m tables sources (.unary op unaryType child) =
      runTree m tables sources child >>= stage m ⟨op, .unary unaryType⟩ := by
  simp [runTree, postOrder, sourceOf, spineEnd, Plan.spine, streams, passThrough_cons,
    bind_assoc]

theorem runTree_breaker {op : OpId} {unaryType : UnaryType} {child : Plan}
    (breaks : unaryType.isSink = true) :
    runTree m tables sources (.unary op unaryType child) =
      runTree m tables sources child >>= fun rs =>
        forM rs (sink m ⟨op, .unary unaryType⟩) >>= fun _ =>
          getData m tables ⟨op, .unary unaryType⟩ >>= fun r => pure [r] := by
  simp [runTree, postOrder, sourceOf, spineEnd, Plan.spine, breaks, passThrough, runFeed,
    bind_assoc, Plan.operator]

theorem runTree_collector {op : OpId} {child : Plan} :
    runTree m tables sources (.resultCollector op child) =
      runTree m tables sources child >>= fun rs =>
        forM rs (sink m ⟨op, .resultCollector⟩) >>= fun _ =>
          getData m tables ⟨op, .resultCollector⟩ >>= fun r => pure [r] := by
  simp [runTree, postOrder, sourceOf, spineEnd, Plan.spine, passThrough, runFeed, bind_assoc,
    Plan.operator]

theorem runTree_join {op : OpId} {kind : JoinKind} {lhs rhs : Plan} :
    runTree m tables sources (.join op kind lhs rhs) =
      runTree m tables sources rhs >>= fun build =>
        forM build (sink m ⟨op, .join kind⟩) >>= fun _ =>
          runTree m tables sources lhs >>= stage m ⟨op, .join kind⟩ := by
  simp [runTree, postOrder, sourceOf, spineEnd, Plan.spine, passThrough_cons, runFeed,
    bind_assoc]

theorem runTree_cte {op : OpId} {cteScans : List OpId} {definition query : Plan} :
    runTree m tables sources (.cte op cteScans definition query) =
      runTree m tables sources definition >>= fun rs =>
        forM rs (sink m ⟨op, .cte cteScans⟩) >>= fun _ => runTree m tables sources query := by
  simp [runTree, postOrder, sourceOf, spineEnd, Plan.spine, runFeed, bind_assoc]

theorem runTree_leftDelimJoin {op distinct joinOp cachedScan : OpId} {delimScans : List OpId}
    {kind : JoinKind} {lhs rhs : Plan} :
    runTree m tables sources
        (.leftDelimJoin op distinct delimScans lhs joinOp kind cachedScan rhs) =
      runTree m tables sources lhs >>= fun rs =>
        forM rs (sink m ⟨op, .leftDelimJoin distinct cachedScan⟩) >>= fun _ =>
          runTree m tables sources rhs >>= fun build =>
            forM build (sink m ⟨joinOp, .join kind⟩) >>= fun _ =>
              getData m tables ⟨cachedScan, .scan .columnDataScan⟩ >>= fun r =>
                stage m ⟨joinOp, .join kind⟩ [r] := by
  simp [runTree, postOrder, sourceOf, spineEnd, Plan.spine, passThrough, runFeed, bind_assoc,
    Plan.operator]

theorem runTree_rightDelimJoin {op distinct joinOp placeholder : OpId} {delimScans : List OpId}
    {kind : JoinKind} {lhs rhs : Plan} :
    runTree m tables sources
        (.rightDelimJoin op distinct delimScans rhs joinOp kind placeholder lhs) =
      runTree m tables sources rhs >>= fun build =>
        forM build (sink m ⟨op, .rightDelimJoin distinct joinOp kind⟩) >>= fun _ =>
          runTree m tables sources lhs >>= stage m ⟨joinOp, .join kind⟩ := by
  simp [runTree, postOrder, sourceOf, spineEnd, Plan.spine, passThrough_cons, runFeed,
    bind_assoc]

/-- A sink with a state of its own. -/
theorem result_sink {op : Operator} (own : stores op = [op]) {α : Type}
    (f : PUnit → Action Operator S α) :
    result (forM rs (sink m op) >>= f) c = (sinkAll m op rs (c op)).bind fun s =>
      result (f ⟨⟩) (Function.update c op s) := by
  rw [forM_sink, own, List.forM_cons, bind_assoc, storeAll, result_onCell_bind,
    Option.bind_map]
  rfl

/-- A sink that stores into two operators. -/
theorem result_sink_both {op x y : Operator} (both : stores op = [x, y]) (apart : x ≠ y)
    (f : PUnit → Action Operator S (List R)) :
    result (forM rs (sink m op) >>= f) c = (sinkAll m x rs (c x)).bind fun s =>
      (sinkAll m y rs (c y)).bind fun t =>
        result (f ⟨⟩) (Function.update (Function.update c x s) y t) := by
  rw [forM_sink, both, List.forM_cons, bind_assoc, storeAll, result_onCell_bind,
    Option.bind_map]
  congr 1
  funext s
  change result (forM [y] (storeAll m rs) >>= f) _ = _
  rw [List.forM_cons, bind_assoc, storeAll, result_onCell_bind, Option.bind_map,
    Function.update_of_ne (Ne.symm apart)]
  rfl

theorem result_getData {op : Operator} (own : readsFrom tables op = op)
    (f : R → Action Operator S (List R)) :
    result (getData m tables op >>= f) c = (m.getData op (c op)).bind fun r =>
      result (f r) c := by
  rw [getData, own, result_readCell_bind]

theorem result_stage {op : Operator} : result (stage m op rs) c =
    (pass m op rs (c op)).bind fun x => some x.1 := by
  rw [stage, result_onCell]
  cases pass m op rs (c op) <;> rfl

/-- What the groups below a node give is what the node passes on according to the tree. -/
def Gives (m : Methods R S) (tables : List (OpId × Operator)) (sources : List (OpId × OpId))
    (p : Plan) : Prop :=
  ∀ ⦃ctes delims : List OpId⦄ ⦃shared : Shared R⦄ ⦃c : Operator → S⦄, p.Scoped ctes delims →
    delimSources p ⊆ sources → cteTables p ⊆ tables → p.objects.Nodup →
      Ready m tables sources shared ctes delims p c →
        result (runTree m tables sources p) c = flow m p shared

theorem gives_scan {op : OpId} {scanType : ScanType} :
    Gives m tables sources (.scan op scanType) := by
  intro _ _ _ c _ _ _ _ ready
  have here := ready.fresh ⟨op, .scan scanType⟩ List.mem_cons_self
  change result (getData m tables ⟨op, .scan scanType⟩ >>= fun r => pure [r]) c = _
  rw [result_getData rfl, here]
  rfl

theorem gives_delimScan {op : OpId} : Gives m tables sources (.delimScan op) := by
  intro _ delims _ c inScope _ _ _ ready
  obtain ⟨keep, found, -, value⟩ := ready.holds.delims op inScope
  have source : sourceOf sources (.delimScan op) = ⟨keep, .unary .hashGroupBy⟩ := by
    simp [sourceOf, spineEnd, found]
  change result (getData m tables (sourceOf sources (.delimScan op)) >>=
    fun r => pure [r]) c = _
  rw [source, result_getData rfl]
  exact congrArg (·.bind fun r => some [r]) value.symm

theorem gives_cteScan {op : OpId} : Gives m tables sources (.cteScan op) := by
  intro ctes _ _ c inScope _ _ _ ready
  obtain ⟨table, found, -, value⟩ := ready.holds.ctes op inScope
  have cell : readsFrom tables ⟨op, .cteScan⟩ = table := by simp [readsFrom, found]
  change result (getData m tables ⟨op, .cteScan⟩ >>= fun r => pure [r]) c = _
  rw [getData, cell, result_readCell_bind]
  exact congrArg (·.bind fun r => some [r]) value.symm

theorem gives_unary {op : OpId} {unaryType : UnaryType} {child : Plan}
    (ih : Gives m tables sources child) : Gives m tables sources (.unary op unaryType child) := by
  intro _ _ _ c inScope sub sub' distinct ready
  obtain ⟨own, distinct⟩ : (⟨op, .unary unaryType⟩ : Operator) ∉ child.objects ∧
      child.objects.Nodup := List.nodup_cons.mp distinct
  have below := ih inScope sub sub' distinct
    (ready.below (List.subset_cons_self _ _) (fun _ _ => rfl) fun _ _ => rfl)
  have kept {rs : List R} {c₁ : Operator → S}
      (run : (runTree m tables sources child).run c = some (rs, c₁)) :
      c₁ ⟨op, .unary unaryType⟩ = m.initial ⟨op, .unary unaryType⟩ :=
    (runTree_frame run _ own).trans (ready.fresh _ List.mem_cons_self)
  cases breaks : unaryType.isSink with
  | true =>
    rw [runTree_breaker breaks]
    simp only [flow, breaks, if_true]
    refine result_bind below fun rs c₁ run => ?_
    rw [result_sink rfl, kept run]
    congr 1
    funext s
    rw [result_getData rfl, Function.update_self]
    rfl
  | false =>
    rw [runTree_stream breaks]
    simp only [flow, breaks]
    refine result_bind below fun rs c₁ run => ?_
    rw [result_stage, kept run]
    rfl

theorem gives_resultCollector {op : OpId} {plan : Plan} (ih : Gives m tables sources plan) :
    Gives m tables sources (.resultCollector op plan) := by
  intro _ _ _ _ inScope sub sub' distinct ready
  obtain ⟨own, distinct⟩ : (⟨op, .resultCollector⟩ : Operator) ∉ plan.objects ∧
      plan.objects.Nodup := List.nodup_cons.mp distinct
  have below := ih inScope sub sub' distinct
    (ready.below (List.subset_cons_self _ _) (fun _ _ => rfl) fun _ _ => rfl)
  rw [runTree_collector]
  refine result_bind below fun rs c₁ run => ?_
  have kept : c₁ ⟨op, .resultCollector⟩ = m.initial ⟨op, .resultCollector⟩ :=
    (runTree_frame run _ own).trans (ready.fresh _ List.mem_cons_self)
  rw [result_sink rfl, kept]
  congr 1
  funext s
  rw [result_getData rfl, Function.update_self]
  rfl

theorem gives_join {op : OpId} {kind : JoinKind} {lhs rhs : Plan} (ihl : Gives m tables sources lhs)
    (ihr : Gives m tables sources rhs) : Gives m tables sources (.join op kind lhs rhs) := by
  intro _ _ _ c inScope sub sub' distinct ready
  obtain ⟨own, distinct⟩ := List.nodup_cons.mp distinct
  obtain ⟨right, left, apart⟩ := List.nodup_append.mp distinct
  obtain ⟨notRight, notLeft⟩ : (⟨op, .join kind⟩ : Operator) ∉ rhs.objects ∧
      (⟨op, .join kind⟩ : Operator) ∉ lhs.objects := by
    simpa [not_or, Plan.operator] using own
  have build := ihr inScope.2 (List.append_subset.mp sub).1 (List.append_subset.mp sub').1
    right (ready.below (fun _ h => by simp [Plan.objects, h]) (fun _ _ => rfl) fun _ _ => rfl)
  rw [runTree_join]
  refine result_bind build fun rr c₁ run => ?_
  have kept : c₁ ⟨op, .join kind⟩ = m.initial ⟨op, .join kind⟩ :=
    (runTree_frame run _ notRight).trans (ready.fresh _ List.mem_cons_self)
  rw [result_sink rfl, kept]
  congr 1
  funext s
  have same (x : Operator) (other : x ≠ ⟨op, .join kind⟩) (out : x ∉ rhs.objects) :
      Function.update c₁ ⟨op, .join kind⟩ s x = c x := by
    rw [Function.update_of_ne other, runTree_frame run x out]
  have probe := ihl inScope.1 (List.append_subset.mp sub).2 (List.append_subset.mp sub').2
    left (ready.below (fun _ h => by simp [Plan.objects, h])
      (fun x inside => same x (fun h => notLeft (h ▸ inside)) fun h => apart x h x inside rfl)
      fun x out => by
        simp only [Plan.objects, Plan.operator, List.mem_cons, List.mem_append, not_or] at out
        exact same x out.1 out.2.1)
  refine result_bind probe fun rl c₂ run' => ?_
  have stored : c₂ ⟨op, .join kind⟩ = s :=
    (runTree_frame run' _ notLeft).trans (Function.update_self _ _ _)
  rw [result_stage, stored]
  rfl

theorem gives_cte {op : OpId} {cteScans : List OpId} {definition query : Plan}
    (keys : (tables.map Prod.fst).Nodup) (ihd : Gives m tables sources definition)
    (ihq : Gives m tables sources query) :
    Gives m tables sources (.cte op cteScans definition query) := by
  intro _ _ _ c inScope sub sub' distinct ready
  obtain ⟨own, distinct⟩ := List.nodup_cons.mp distinct
  obtain ⟨above, below, apart⟩ := List.nodup_append.mp distinct
  obtain ⟨notAbove, notBelow⟩ : (⟨op, .cte cteScans⟩ : Operator) ∉ definition.objects ∧
      (⟨op, .cte cteScans⟩ : Operator) ∉ query.objects := by
    simpa [not_or, Plan.operator] using own
  obtain ⟨inside, rest⟩ := List.append_subset.mp sub'
  obtain ⟨subd, subq⟩ := List.append_subset.mp rest
  have table := ihd inScope.1 (List.append_subset.mp sub).1 subd above
    (ready.below (fun _ h => by simp [Plan.objects, h]) (fun _ _ => rfl) fun _ _ => rfl)
  rw [runTree_cte]
  refine result_bind table fun rs c₁ run => ?_
  have kept : c₁ ⟨op, .cte cteScans⟩ = m.initial ⟨op, .cte cteScans⟩ :=
    (runTree_frame run _ notAbove).trans (ready.fresh _ List.mem_cons_self)
  rw [result_sink rfl, kept]
  congr 1
  funext s
  have same (x : Operator) (other : x ≠ ⟨op, .cte cteScans⟩) (out : x ∉ definition.objects) :
      Function.update c₁ ⟨op, .cte cteScans⟩ s x = c x := by
    rw [Function.update_of_ne other, runTree_frame run x out]
  have ready' := (ready.below (q := query) (fun _ h => by simp [Plan.objects, h])
    (fun x inside => same x (fun h => notBelow (h ▸ inside)) fun h => apart x h x inside rfl)
    fun x out => by
      simp only [Plan.objects, Plan.operator, List.mem_cons, List.mem_append, not_or] at out
      exact same x out.1 out.2.1).withCtes (fun _ => lookup_scan keys inside) notBelow
  rw [Function.update_self] at ready'
  exact ihq inScope.2 (List.append_subset.mp sub).2 subq below ready'

theorem gives_leftDelimJoin {op keep joinOp cachedScan : OpId} {delimScans : List OpId}
    {kind : JoinKind} {lhs rhs : Plan} (keys : (sources.map Prod.fst).Nodup)
    (ihl : Gives m tables sources lhs) (ihr : Gives m tables sources rhs) :
    Gives m tables sources (.leftDelimJoin op keep delimScans lhs joinOp kind cachedScan rhs) := by
  intro _ _ _ c inScope sub sub' distinct ready
  simp only [Plan.objects, List.nodup_cons, List.nodup_append, List.mem_cons, List.mem_append,
    not_or] at distinct
  obtain ⟨-, ⟨-, -, keysLeft, keysRight⟩, ⟨-, joinLeft, joinRight⟩, ⟨cachedLeft, cachedRight⟩,
    left, right, apart⟩ := distinct
  obtain ⟨inside, rest⟩ := List.append_subset.mp sub
  obtain ⟨subl, subr⟩ := List.append_subset.mp rest
  have duplicates := ihl inScope.1 subl (List.append_subset.mp sub').1 left
    (ready.below (fun _ h => by simp [Plan.objects, h]) (fun _ _ => rfl) fun _ _ => rfl)
  rw [runTree_leftDelimJoin]
  refine result_bind duplicates fun rs c₁ run => ?_
  have cached : c₁ ⟨cachedScan, .scan .columnDataScan⟩ =
      m.initial ⟨cachedScan, .scan .columnDataScan⟩ :=
    (runTree_frame run _ cachedLeft).trans (ready.fresh _ (by simp [Plan.objects]))
  have unused : c₁ ⟨keep, .unary .hashGroupBy⟩ = m.initial ⟨keep, .unary .hashGroupBy⟩ :=
    (runTree_frame run _ keysLeft).trans (ready.fresh _ (by simp [Plan.objects]))
  have unbuilt : c₁ ⟨joinOp, .join kind⟩ = m.initial ⟨joinOp, .join kind⟩ :=
    (runTree_frame run _ joinLeft).trans (ready.fresh _ (by simp [Plan.objects]))
  rw [result_sink_both rfl (by simp), cached, unused]
  congr 1
  funext kept
  congr 1
  funext s
  have same (x : Operator) (first : x ≠ ⟨cachedScan, .scan .columnDataScan⟩)
      (second : x ≠ ⟨keep, .unary .hashGroupBy⟩) (out : x ∉ lhs.objects) :
      Function.update (Function.update c₁ ⟨cachedScan, .scan .columnDataScan⟩ kept)
        ⟨keep, .unary .hashGroupBy⟩ s x = c x := by
    rw [Function.update_of_ne second, Function.update_of_ne first, runTree_frame run x out]
  have ready' := (ready.below (q := rhs) (fun _ h => by simp [Plan.objects, h])
    (fun x inside => same x (fun h => cachedRight (h ▸ inside))
      (fun h => keysRight (h ▸ inside)) fun h => apart x h x inside rfl)
    fun x out => by
      simp only [Plan.objects, List.mem_cons, List.mem_append, not_or] at out
      exact same x out.2.2.2.1 out.2.1 out.2.2.2.2.1).withDelims
        (fun _ => lookup_scan keys inside) keysRight
  rw [Function.update_self] at ready'
  refine result_bind (ihr inScope.2 subr (List.append_subset.mp sub').2 right ready')
    fun build c₂ run' => ?_
  have unbuilt' : c₂ ⟨joinOp, .join kind⟩ = m.initial ⟨joinOp, .join kind⟩ := by
    rw [runTree_frame run' _ joinRight, ← unbuilt]
    simp
  have cached' : c₂ ⟨cachedScan, .scan .columnDataScan⟩ = kept := by
    rw [runTree_frame run' _ cachedRight]
    simp
  rw [result_sink rfl, unbuilt']
  congr 1
  funext table
  rw [result_getData rfl, Function.update_of_ne (by simp), cached']
  congr 1
  funext probe
  rw [result_stage, Function.update_self]
  rfl

theorem gives_rightDelimJoin {op keep joinOp placeholder : OpId} {delimScans : List OpId}
    {kind : JoinKind} {lhs rhs : Plan} (keys : (sources.map Prod.fst).Nodup)
    (ihr : Gives m tables sources rhs) (ihl : Gives m tables sources lhs) :
    Gives m tables sources
      (.rightDelimJoin op keep delimScans rhs joinOp kind placeholder lhs) := by
  intro _ _ _ c inScope sub sub' distinct ready
  simp only [Plan.objects, List.nodup_cons, List.nodup_append, List.mem_cons, List.mem_append,
    not_or] at distinct
  obtain ⟨-, ⟨-, -, keysRight, keysLeft⟩, ⟨-, joinRight, joinLeft⟩, -, right, left, apart⟩ :=
    distinct
  obtain ⟨inside, rest⟩ := List.append_subset.mp sub
  obtain ⟨subr, subl⟩ := List.append_subset.mp rest
  have build := ihr inScope.1 subr (List.append_subset.mp sub').1 right
    (ready.below (fun _ h => by simp [Plan.objects, h]) (fun _ _ => rfl) fun _ _ => rfl)
  rw [runTree_rightDelimJoin]
  refine result_bind build fun rs c₁ run => ?_
  have unused : c₁ ⟨keep, .unary .hashGroupBy⟩ = m.initial ⟨keep, .unary .hashGroupBy⟩ :=
    (runTree_frame run _ keysRight).trans (ready.fresh _ (by simp [Plan.objects]))
  have unbuilt : c₁ ⟨joinOp, .join kind⟩ = m.initial ⟨joinOp, .join kind⟩ :=
    (runTree_frame run _ joinRight).trans (ready.fresh _ (by simp [Plan.objects]))
  rw [result_sink_both rfl (by simp), unbuilt, unused]
  congr 1
  funext table
  congr 1
  funext s
  have same (x : Operator) (first : x ≠ ⟨joinOp, .join kind⟩)
      (second : x ≠ ⟨keep, .unary .hashGroupBy⟩) (out : x ∉ rhs.objects) :
      Function.update (Function.update c₁ ⟨joinOp, .join kind⟩ table)
        ⟨keep, .unary .hashGroupBy⟩ s x = c x := by
    rw [Function.update_of_ne second, Function.update_of_ne first, runTree_frame run x out]
  have ready' := (ready.below (q := lhs) (fun _ h => by simp [Plan.objects, h])
    (fun x inside => same x (fun h => joinLeft (h ▸ inside))
      (fun h => keysLeft (h ▸ inside)) fun h => apart x h x inside rfl)
    fun x out => by
      simp only [Plan.objects, List.mem_cons, List.mem_append, not_or] at out
      exact same x out.2.2.1 out.2.1 out.2.2.2.2.1).withDelims
        (fun _ => lookup_scan keys inside) keysLeft
  rw [Function.update_self] at ready'
  refine result_bind (ihl inScope.2.1 subl (List.append_subset.mp sub').2 left ready')
    fun probe c₂ run' => ?_
  have built : c₂ ⟨joinOp, .join kind⟩ = table := by
    rw [runTree_frame run' _ joinLeft]
    simp
  rw [result_stage, built]
  rfl

/-- The groups below a node give what the node passes on according to the tree. -/
theorem runTree_result (keys : (sources.map Prod.fst).Nodup)
    (keys' : (tables.map Prod.fst).Nodup) (p : Plan) : Gives m tables sources p := by
  induction p with
  | scan => exact gives_scan
  | delimScan => exact gives_delimScan
  | cteScan => exact gives_cteScan
  | recursiveCteScan =>
    -- no scope has recursive scans
    intro _ _ _ _ inScope
    exact inScope.elim
  | unary op unaryType child ih => exact gives_unary ih
  | join op kind lhs rhs ihl ihr => exact gives_join ihl ihr
  | cte op cteScans definition query ihd ihq => exact gives_cte keys' ihd ihq
  | leftDelimJoin op keep delimScans lhs joinOp kind cachedScan rhs ihl ihr =>
    exact gives_leftDelimJoin keys ihl ihr
  | rightDelimJoin op keep delimScans rhs joinOp kind placeholder lhs ihr ihl =>
    exact gives_rightDelimJoin keys ihr ihl
  | resultCollector op plan ih => exact gives_resultCollector ih

end Trees

section Execution

variable {m : Methods R S} {plan p : Plan} {op : OpId} {scheduled : List Pipeline} {fuel : Nat}

theorem cteTables_keys (p : Plan) : (cteTables p).map Prod.fst = p.registeredCteScans := by
  induction p <;> simp_all [cteTables, Plan.registeredCteScans, Function.comp_def]

/-- The schedule does what the groups do from the bottom of the tree up. -/
theorem forM_scheduled (wf : plan.WellFormed) (inScope : plan.Scoped [] [])
    (once : ((delimSources plan).map Prod.fst).Nodup)
    (returns : initializeInternal plan fuel = .ok (some scheduled)) :
    forM scheduled (runPipeline m (cteTables plan)) =
      forM (postOrder plan) (runFeed m (cteTables plan) (delimSources plan)) := by
  have tables : ((cteTables plan).map Prod.fst).Nodup := by
    rw [cteTables_keys]
    exact wf.cteScans
  have offered := offers inScope (List.Subset.refl (delimSources plan)) once
    (List.Subset.refl (cteTables plan)) tables
  have postOrdered {feed other : Operator × Plan} :=
    @feedsInto_postOrder (delimSources plan) plan feed other wf offered
  have nodup : (postOrder plan).Nodup := (postOrder_perm plan).nodup_iff.mpr (feeds_nodup wf)
  have apart (feed) (member : feed ∈ plan.feeds) (x) (above : x ∈ feed.2.spine) :
      x ∉ stores feed.1 := by
    intro stored
    have pair := postOrdered member member ⟨x, stored, .inl above⟩
    have := nodup.sublist pair
    simp at this
  obtain ⟨metas, sched, groups, perm, rfl, topological⟩ := schedule_groups wf inScope returns
  have related : List.Forall₂ (fun feed x => ∃ y : MetaPipeline,
      PathGroup (delimSources plan) feed.2 (some feed.1) y ∧ y.ready = x) plan.feeds
        (metas.map MetaPipeline.ready) :=
    List.forall₂_map_right_iff.mpr (groups.imp fun _ y group => ⟨y, group, rfl⟩)
  have swapped : Relation.Comp (List.Forall₂ fun (feed : Operator × Plan) x =>
      ∃ y : MetaPipeline, PathGroup (delimSources plan) feed.2 (some feed.1) y ∧ y.ready = x)
        List.Perm plan.feeds sched := ⟨_, related, perm⟩
  rw [List.forall₂_comp_perm_eq_perm_comp_forall₂] at swapped
  obtain ⟨order, perm', groups'⟩ := swapped
  have known {feed : Operator × Plan} : feed ∈ order ↔ feed ∈ plan.feeds := perm'.symm.mem_iff
  rw [forM_schedule wf once apart (fun _ h => known.mp h) groups']
  refine forM_perm local_runFeed (perm'.symm.trans (postOrder_perm plan).symm)
    (perm'.nodup_iff.mp (feeds_nodup wf)) fun feed member other member' apart' => ?_
  have here := known.mp member
  have there := known.mp member'
  refine (independent_or wf here there apart').imp_right (Or.imp (fun into => ?_) fun into => ?_)
  · exact ⟨feedsInto_schedule groups' once topological member member' apart' into,
      postOrdered here there into⟩
  · exact ⟨feedsInto_schedule groups' once topological member' member (Ne.symm apart') into,
      postOrdered there here into⟩

/-- Executing the pipelines in their schedule leaves in the result collector what the plan
passes on according to its tree, and throws if that throws. -/
theorem executeSchedule_collected (m : Methods R S)
    (wf : (Plan.resultCollector op p).WellFormed) (inScope : p.Scoped [] [])
    (once : ((delimSources p).map Prod.fst).Nodup) :
    (∃ fuel scheduled, initializeInternal (.resultCollector op p) fuel = .ok (some scheduled)) ∧
      ∀ fuel scheduled, initializeInternal (.resultCollector op p) fuel = .ok (some scheduled) →
        (executeSchedule m (cteTables p) scheduled).map (· ⟨op, .resultCollector⟩) =
          collected m op p := by
  refine ⟨?_, fun fuel scheduled returns => ?_⟩
  · obtain ⟨root, scheduled, -, returns, -⟩ :=
      @initializeInternal_topological (.resultCollector op p) wf inScope
    exact ⟨_, scheduled, returns⟩
  have whole := forM_scheduled (m := m) wf inScope once returns
  obtain ⟨own, distinct⟩ : (⟨op, .resultCollector⟩ : Operator) ∉ p.objects ∧
      p.objects.Nodup := List.nodup_cons.mp (List.Nodup.of_map _ wf.distinct)
  have tables : ((cteTables p).map Prod.fst).Nodup := by
    rw [cteTables_keys]
    exact wf.cteScans
  have below : result (runTree m (cteTables p) (delimSources p) p) m.initial =
      flow m p ⟨fun _ => none, fun _ => none⟩ :=
    runTree_result once tables _ inScope (List.Subset.refl _) (List.Subset.refl _) distinct
      ⟨fun _ _ => rfl, ⟨fun _ h => absurd h List.not_mem_nil,
        fun _ h => absurd h List.not_mem_nil⟩⟩
  have split : forM scheduled (runPipeline m (cteTables p)) =
      runTree m (cteTables p) (delimSources p) p >>= fun rs =>
        forM rs (sink m ⟨op, .resultCollector⟩) := by
    refine whole.trans ?_
    simp [postOrder, runTree, runFeed, bind_assoc, cteTables, delimSources]
  have read : (executeSchedule m (cteTables p) scheduled).map (· ⟨op, .resultCollector⟩) =
      result (runTree m (cteTables p) (delimSources p) p >>= fun rs =>
        forM rs (sink m ⟨op, .resultCollector⟩) >>= fun _ =>
          readCell ⟨op, .resultCollector⟩ some) m.initial := by
    rw [executeSchedule, split, ← bind_assoc, result_bind_readCell, Option.map_map]
    exact Option.map_eq_bind
  rw [read]
  refine result_bind below fun rs c run => ?_
  have kept : c ⟨op, .resultCollector⟩ = m.initial ⟨op, .resultCollector⟩ :=
    runTree_frame run _ own
  rw [result_sink rfl, kept]
  simp only [result_readCell, Function.update_self]
  exact Option.bind_fun_some _

section Example

/-- A CTE that is joined with itself, and what the join has stored passed on behind. -/
def selfJoin : Plan :=
  .resultCollector 0 (.cte 1 [4, 5] (.scan 2 .tableScan)
    (.join 3 (.hashJoin .right) (.cteScan 4) (.cteScan 5)))

/-- Relations are lists of numbers; a join passes the numbers on that it has stored. -/
def listMethods : Methods (List Nat) (List Nat) where
  initial op := if op.type = .scan .tableScan then [7, 8] else []
  getData _ s := some s
  execute _ r s := some (r.filter (· ∈ s), s)
  sink _ r s := some (s ++ r)

theorem selfJoin_collected :
    (∃ fuel scheduled, initializeInternal selfJoin fuel = .ok (some scheduled)) ∧
      ∀ fuel scheduled, initializeInternal selfJoin fuel = .ok (some scheduled) →
        (executeSchedule listMethods [(4, ⟨1, .cte [4, 5]⟩), (5, ⟨1, .cte [4, 5]⟩)]
          scheduled).map (· ⟨0, .resultCollector⟩) = some [7, 8, 7, 8] :=
  executeSchedule_collected listMethods (by decide) (by simp [Plan.Scoped]) (by decide)

end Example

end Execution

end PlanExecution
