import Mathlib
import SiriusGpu.PipelineReaders

/-!
# The schedule of a physical plan

The loop of the executor that turns meta-pipelines into a list of pipelines. It
walks round the meta-pipelines from the last created to the first and schedules
one as soon as the dependencies of its base pipeline are scheduled. Pipelines
that would scan the hash table of a join other than a right one are never run.
-/

namespace PipelineSchedule

open PhysicalPlan PipelineBuild PipelineGrowth PipelineOrder PipelineReaders RoundRobin

section Model

/-- The types of hash joins whose table is scanned by a pipeline of its own. -/
def scansHashTable : JoinType → Bool
  | .right | .rightSemi | .rightAnti => true
  | _ => false

def isScheduled (p : Pipeline) : Bool :=
  match p.source with
  | some ⟨_, .join (.hashJoin joinType)⟩ => scansHashTable joinType
  | _ => true

def getMetaPipelines (m : MetaPipeline) (recursive skip : Bool) : List MetaPipeline :=
  (if skip then [] else [m]) ++ if recursive then m.descendants else []

structure ScheduleState where
  scheduled : List Pipeline
  scheduleCount : Nat
  metaIdx : Nat

def contains (scheduled : List Pipeline) (id : Nat) : Bool :=
  (scheduled.find? (·.id = id)).isSome

def shouldSchedule (scheduled : List Pipeline) (m : MetaPipeline) : Bool :=
  if contains scheduled m.base.id then false
  else
    (getMetaPipelines m false true).all (fun child => contains scheduled child.base.id) &&
      m.base.dependencies.all (contains scheduled)

def scheduleStep (toSchedule : List MetaPipeline) (s : ScheduleState) : ScheduleState :=
  match toSchedule[toSchedule.length - 1 - s.metaIdx]? with
  | none => s
  | some m =>
    if shouldSchedule s.scheduled m then
      { scheduled := s.scheduled ++ m.pipelines.filter isScheduled
        scheduleCount := s.scheduleCount + 1
        metaIdx := (s.metaIdx + 1) % toSchedule.length }
    else { s with metaIdx := (s.metaIdx + 1) % toSchedule.length }

def scheduleLoop (toSchedule : List MetaPipeline) : Nat → ScheduleState → Option ScheduleState
  | 0, s => if s.scheduleCount < toSchedule.length then none else some s
  | fuel + 1, s =>
    if s.scheduleCount < toSchedule.length then
      scheduleLoop toSchedule fuel (scheduleStep toSchedule s)
    else some s

def buildPlan (plan : Plan) : Except BuildError MetaPipeline := do
  let (root, _) ← buildPipelines plan (createMetaPipeline none 0) ⟨1, [], []⟩
  pure root.ready

/-- The inner result is missing when the fuel does not suffice for the loop. -/
def initializeInternal (plan : Plan) (fuel : Nat) :
    Except BuildError (Option (List Pipeline)) := do
  let root ← buildPlan plan
  pure ((scheduleLoop (getMetaPipelines root true true) fuel ⟨[], 0, 0⟩).map
    ScheduleState.scheduled)

end Model

section Instance

/-- The executor's loop as round-robin scheduling of meta-pipelines. -/
def scheduleTasks : Tasks MetaPipeline Pipeline Nat where
  head m := m.base.id
  needs m := m.base.dependencies
  emits m := m.pipelines.filter isScheduled
  ident := Pipeline.id

def ScheduleState.toState (s : ScheduleState) : State Pipeline :=
  ⟨s.scheduled, s.scheduleCount, s.metaIdx⟩

lemma contains_iff (scheduled : List Pipeline) (id : Nat) :
    contains scheduled id = true ↔ Emitted scheduleTasks scheduled id := by
  simp [contains, Emitted, scheduleTasks]

lemma shouldSchedule_iff (scheduled : List Pipeline) (m : MetaPipeline) :
    shouldSchedule scheduled m = true ↔ Due scheduleTasks scheduled m := by
  have hhead : contains scheduled m.base.id = true ↔
      Emitted scheduleTasks scheduled (scheduleTasks.head m) := contains_iff _ _
  have hneeds : m.base.dependencies.all (contains scheduled) = true ↔
      ∀ k ∈ scheduleTasks.needs m, Emitted scheduleTasks scheduled k := by
    rw [List.all_eq_true]
    exact forall₂_congr fun k _ => contains_iff scheduled k
  unfold shouldSchedule
  by_cases h : contains scheduled m.base.id = true
  · rw [if_pos h]
    constructor
    · intro impossible
      cases impossible
    · intro due
      exact False.elim (due.1 (hhead.mp h))
  · -- the children collected here are none, whatever lies below
    have hchildren : (getMetaPipelines m false true).all
        (fun child => contains scheduled child.base.id) = true := rfl
    rw [if_neg h, hchildren, Bool.true_and, hneeds]
    constructor
    · intro all
      exact ⟨mt hhead.mpr h, all⟩
    · intro due
      exact due.2

theorem scheduleStep_toState (ms : List MetaPipeline) (s : ScheduleState) :
    (scheduleStep ms s).toState = visit scheduleTasks ms s.toState := by
  cases hget : ms[ms.length - 1 - s.metaIdx]? with
  | none =>
    have hget' : ms[ms.length - 1 - s.toState.cursor]? = none := hget
    simp only [scheduleStep, visit, hget, hget']
  | some m =>
    have turn : ms[ms.length - 1 - s.toState.cursor]? = some m := hget
    rw [visit_eq turn]
    simp only [scheduleStep, hget]
    by_cases due : Due scheduleTasks s.scheduled m
    · rw [if_pos ((shouldSchedule_iff _ _).mpr due)]
      exact (if_pos due).symm
    · rw [if_neg (mt (shouldSchedule_iff _ _).mp due)]
      exact (if_neg due).symm

theorem scheduleLoop_toState (ms : List MetaPipeline) (fuel : Nat) (s : ScheduleState) :
    (scheduleLoop ms fuel s).map ScheduleState.toState =
      loop scheduleTasks ms fuel s.toState := by
  induction fuel generalizing s with
  | zero =>
    unfold scheduleLoop loop
    by_cases h : s.scheduleCount < ms.length <;> simp [ScheduleState.toState, h]
  | succ fuel ih =>
    unfold scheduleLoop loop
    by_cases h : s.scheduleCount < ms.length
    · simp only [h, if_true, ih, scheduleStep_toState]
      simp [ScheduleState.toState, h]
    · simp [ScheduleState.toState, h]

end Instance

section Groups

lemma eq_of_mem_flatMap {α β : Type} {l : List α} {f : α → List β} (distinct : (l.flatMap f).Nodup)
    {a b : α} (ha : a ∈ l) (hb : b ∈ l) {x : β} (hxa : x ∈ f a) (hxb : x ∈ f b) : a = b := by
  induction l with
  | nil => cases ha
  | cons c l ih =>
    obtain ⟨_, tail, apart⟩ := List.nodup_append.mp (List.flatMap_cons ▸ distinct)
    have once : ∀ d ∈ l, x ∈ f c → x ∈ f d → False := by
      intro d hd hc hxd
      exact apart x hc x (List.mem_flatMap.mpr ⟨d, hd, hxd⟩) rfl
    rcases List.mem_cons.mp ha with rfl | ha'
    · rcases List.mem_cons.mp hb with rfl | hb'
      · rfl
      · exact False.elim (once b hb' hxa hxb)
    · rcases List.mem_cons.mp hb with rfl | hb'
      · exact False.elim (once a ha' hxb hxa)
      · exact ih tail ha' hb'

lemma flatMap_sublist {α β : Type} {f g : α → List β} (h : ∀ a, (f a).Sublist (g a))
    (l : List α) : (l.flatMap f).Sublist (l.flatMap g) := by
  induction l with
  | nil => exact List.Sublist.refl _
  | cons a l ih =>
    rw [List.flatMap_cons, List.flatMap_cons]
    exact (h a).append ih

/-- The order of distinct keys is the order of the items. -/
lemma sublist_of_map_eq {α β : Type} {f : α → β} {l : List α} {pre post : List β} {y : β}
    (distinct : (l.map f).Nodup) (split : l.map f = pre ++ y :: post) {p q : α} (hp : p ∈ l)
    (hq : q ∈ l) (hpre : f p ∈ pre) (hy : f q = y) : [p, q].Sublist l := by
  have inj := List.inj_on_of_nodup_map distinct
  obtain ⟨l₁, l₂, rfl, hl₁, hl₂⟩ := List.map_eq_append_iff.mp split
  obtain ⟨q', l₃, rfl, hq', _⟩ := List.map_eq_cons_iff.mp hl₂
  obtain rfl : q' = q := inj (by simp) hq (hq'.trans hy.symm)
  rw [← hl₁] at hpre
  obtain ⟨p', hp', heq⟩ := List.mem_map.mp hpre
  obtain rfl : p' = p := inj (List.mem_append_left _ hp') hp heq
  exact (List.singleton_sublist.mpr hp').append
    (List.singleton_sublist.mpr List.mem_cons_self)

/-- What is known of a meta-pipeline built for a sink and the subtree that feeds it. -/
structure Group (feed : Operator × Plan) (x : MetaPipeline) : Prop where
  sink : x.sink = some feed.1
  baseSink : x.base.sink = some feed.1
  operators : x.base.operators = feed.2.spine
  source : ∃ op, x.base.source = some op ∧ ∀ kind, op.type ≠ .join kind
  distinct : feed.2.spine.Nodup
  children : ChildrenFor [] feed.2.spine (some feed.1) x.childPipelines
  ordered : GroupOrdered x

lemma group_of_built {feed : Operator × Plan} {x : MetaPipeline} (h : BuiltFor feed x)
    (distinct : (feed.2.spine.map Operator.id).Nodup) : Group feed x := by
  obtain ⟨st, st', builds⟩ := h
  obtain ⟨_, hbase, hsink⟩ := builds_frame builds
  obtain ⟨new, hnew, children⟩ := builds_childPipelines builds (by
    simpa [startMeta, createMetaPipeline] using distinct)
  have hchildren : x.childPipelines = new := hnew
  refine ⟨hsink, hbase, builds_operators builds, builds_source builds,
    List.Nodup.of_map _ distinct, ?_, ?_⟩
  · rw [hchildren]
    exact children
  · exact builds_group builds (by simp [GroupOrdered, startMeta, createMetaPipeline])

variable {feed : Operator × Plan} {x : MetaPipeline}

lemma Group.mem_pipelines (g : Group feed x) {q : Pipeline} (hq : q ∈ x.pipelines) :
    q.sink = some feed.1 ∧ (q.dependencies = [] ∨ q = x.base) ∧
      ∀ op ∈ uses q, op ∈ x.base.source.toList ++ feed.2.spine := by
  rcases List.mem_cons.mp hq with rfl | hq
  · refine ⟨g.baseSink, Or.inr rfl, ?_⟩
    intro op hop
    rwa [uses, g.operators] at hop
  · refine ⟨(g.children.2 q hq).1, Or.inl (g.children.2 q hq).2, ?_⟩
    obtain ⟨join, hsource, _, rest, hspine⟩ := g.children.split hq
    intro op hop
    rw [uses, hsource] at hop
    rw [hspine]
    simp only [Option.toList_some, List.mem_append, List.mem_cons] at hop ⊢
    tauto

lemma isJoinSource_type {op : Operator} (join : op.isJoinSource = true) :
    ∃ kind, op.type = .join kind := by
  unfold Operator.isJoinSource at join
  split at join
  · rename_i kind htype
    exact ⟨kind, htype⟩
  · cases join

lemma Group.join_mem (g : Group feed x) {op : Operator} (join : op.isJoinSource = true)
    (hop : op ∈ x.base.source.toList ++ feed.2.spine) : op ∈ x.base.operators := by
  rw [g.operators]
  rcases List.mem_append.mp hop with hop | hop
  · obtain ⟨src, hsrc, hkind⟩ := g.source
    obtain rfl : op = src := by simpa [hsrc] using hop
    obtain ⟨kind, htype⟩ := isJoinSource_type join
    exact False.elim (hkind kind htype)
  · exact hop

lemma Group.base_isScheduled (g : Group feed x) : isScheduled x.base = true := by
  obtain ⟨op, hsource, hkind⟩ := g.source
  unfold isScheduled
  split
  · rename_i id joinType heq
    exact False.elim (hkind (.hashJoin joinType) (by
      rw [Option.some.inj (hsource.symm.trans heq)]))
  · rfl

lemma Group.operators_subset (g : Group feed x) {q : Pipeline} (hq : q ∈ x.pipelines) :
    q.operators ⊆ x.base.operators := by
  rcases List.mem_cons.mp hq with rfl | hq
  · exact fun _ h => h
  · obtain ⟨_, _, _, rest, hspine⟩ := g.children.split hq
    rw [g.operators, hspine]
    exact List.subset_append_left _ _

lemma Group.children_nodup (g : Group feed x) :
    (x.childPipelines.map fun c => (c.operators, c.source)).Nodup := by
  rw [g.children.1]
  refine (sourceSplits_nodup g.distinct).map ?_
  rintro ⟨xs, a⟩ ⟨ys, b⟩ h
  simpa using h

/-- Inside a group a pipeline that runs a join comes before the one that scans it. -/
lemma Group.probes (g : Group feed x) {p q : Pipeline}
    (hp : p ∈ x.pipelines) (hq : q ∈ x.pipelines) {op : Operator} (join : op.isJoinSource)
    (hsource : q.source = some op) (hop : op ∈ p.operators) : [p, q].Sublist x.pipelines := by
  have hchild : q ∈ x.childPipelines := by
    rcases List.mem_cons.mp hq with rfl | hq
    · obtain ⟨src, hsrc, hkind⟩ := g.source
      obtain rfl : src = op := Option.some.inj (hsrc.symm.trans hsource)
      obtain ⟨kind, htype⟩ := isJoinSource_type join
      exact False.elim (hkind kind htype)
    · exact hq
  rcases List.mem_cons.mp hp with rfl | hp
  · exact (List.singleton_sublist.mpr hchild).cons_cons x.base
  · obtain ⟨hsplits, _⟩ := g.children
    have hview : ∀ c ∈ x.childPipelines, ∃ split ∈ sourceSplits feed.2.spine,
        (split.1, some split.2) = (c.operators, c.source) := by
      intro c hc
      have hmem : (c.operators, c.source) ∈
          x.childPipelines.map fun c => (c.operators, c.source) := List.mem_map.mpr ⟨c, hc, rfl⟩
      rw [hsplits] at hmem
      simpa using hmem
    obtain ⟨outer, houter, hpouter⟩ := hview p hp
    obtain ⟨inner, hinner, hqinner⟩ := hview q hchild
    obtain ⟨hpo, hps⟩ := Prod.mk.inj hpouter
    obtain ⟨hqo, hqs⟩ := Prod.mk.inj hqinner
    have hinnerop : inner.2 = op := Option.some.inj (hqs.trans hsource)
    have sub := (sourceSplits_before g.distinct houter hinner (by rwa [hinnerop, hpo])).map
      (fun split : List Operator × Operator => ([] ++ split.1, some split.2))
    have nodup := g.children_nodup
    rw [← hsplits] at sub
    obtain ⟨l, hl, hmap⟩ := List.sublist_map_iff.mp sub
    simp only [List.map_cons, List.map_nil, List.nil_append, hpouter, hqinner] at hmap
    obtain ⟨p', l, rfl, hp', hmap⟩ := List.map_eq_cons_iff.mp hmap.symm
    obtain ⟨q', l, rfl, hq', hmap⟩ := List.map_eq_cons_iff.mp hmap
    obtain rfl := List.map_eq_nil_iff.mp hmap
    obtain rfl : p' = p := List.inj_on_of_nodup_map nodup (hl.subset (by simp)) hp hp'
    obtain rfl : q' = q := List.inj_on_of_nodup_map nodup (hl.subset (by simp)) hchild hq'
    exact hl.cons x.base

end Groups

section Topological

/-- `p` is scheduled before `q`. -/
def Before (scheduled : List Pipeline) (p q : Pipeline) : Prop := [p, q].Sublist scheduled

/-- A complete schedule of meta-pipelines: each pipeline that is run stands in it once,
behind everything it depends on or reads from. -/
structure Topological (metas : List MetaPipeline) (scheduled : List Pipeline) : Prop where
  once : (scheduled.map Pipeline.id).Nodup
  complete : ∀ q, q ∈ scheduled ↔ isScheduled q = true ∧ ∃ m ∈ metas, q ∈ m.pipelines
  dependencies : ∀ q ∈ scheduled, ∀ d ∈ q.dependencies,
    ∃ p, p.id = d ∧ Before scheduled p q
  group : ∀ m ∈ metas, ∀ entry ∈ m.dependencies, ∀ p ∈ scheduled, ∀ q ∈ scheduled,
    q.id = entry.1 → p.id ∈ entry.2 → Before scheduled p q
  stored : ∀ p ∈ scheduled, ∀ q ∈ scheduled, ∀ sink, p.sink = some sink →
    ∀ op ∈ sink.consumers, op ∈ uses q → Before scheduled p q
  probes : ∀ p ∈ scheduled, ∀ q ∈ scheduled, ∀ op, op.isJoinSource = true →
    q.source = some op → op ∈ p.operators → Before scheduled p q

/-- The meta-pipelines below the root of a plan, before `Ready`. -/
structure PlanMetas (plan : Plan) (metas : List MetaPipeline) : Prop where
  groups : List.Forall₂ (fun feed y => Group feed y ∧ Fed metas feed.2 y) plan.feeds metas
  ids : (metas.flatMap pipelineIds).Nodup
  finished : ∃ order, order.Perm metas ∧ ReadyOrder baseTasks [] order

lemma forall₂_both {α β : Type} {R S : α → β → Prop} {xs : List α} {ys : List β}
    (hr : List.Forall₂ R xs ys) (hs : List.Forall₂ S xs ys) :
    List.Forall₂ (fun a b => R a b ∧ S a b) xs ys := by
  induction hr with
  | nil => exact .nil
  | cons hab _ ih =>
    cases hs with
    | cons hab' hs => exact .cons ⟨hab, hab'⟩ (ih hs)

lemma forall₂_mem_right {α β : Type} {R : α → β → Prop} {xs : List α} {ys : List β}
    (h : List.Forall₂ R xs ys) {b : β} (hb : b ∈ ys) : ∃ a ∈ xs, R a b := by
  induction h with
  | nil => cases hb
  | cons hab _ ih =>
    rcases List.mem_cons.mp hb with rfl | hb
    · exact ⟨_, List.mem_cons_self, hab⟩
    · obtain ⟨a, ha, hr⟩ := ih hb
      exact ⟨a, List.mem_cons_of_mem _ ha, hr⟩

lemma forall₂_flatMap {α β γ : Type} {f : α → List γ} {g : β → List γ} {xs : List α} {ys : List β}
    (h : List.Forall₂ (fun a b => f a = g b) xs ys) : xs.flatMap f = ys.flatMap g := by
  induction h with
  | nil => rfl
  | cons hab _ ih => rw [List.flatMap_cons, List.flatMap_cons, hab, ih]

lemma planMetas_of_builds {plan : Plan} (wf : plan.WellFormed) {root : MetaPipeline}
    {st : BuildState} (h : Builds plan (createMetaPipeline none 0) ⟨1, [], []⟩ root st) :
    PlanMetas plan root.descendants := by
  have start : (createMetaPipeline none 0).descendants = [] := rfl
  have nothing : Registered [] ⟨1, [], []⟩ := ⟨by simp, by simp⟩
  obtain ⟨new, hnew, built⟩ := builds_descendants h
  obtain ⟨ids, ⟨more, new₁, _, hnew₁, rfl⟩, fresh⟩ := builds_ids h
  obtain ⟨order, hfin⟩ := builds_finished h
  obtain ⟨new₂, hnew₂, perm⟩ := hfin.descendants
  obtain ⟨new₃, contributes⟩ := builds_contributes h nothing
  have hnew₃ := contributes.descendants
  rw [start, List.nil_append] at hnew hnew₁ hnew₂ hnew₃
  refine ⟨forall₂_both ?_ ?_, ?_, ⟨order, hnew₂ ▸ perm, hfin.ordered⟩⟩
  · rw [hnew]
    have distinct : ∀ feed ∈ plan.feeds, (feed.2.spine.map Operator.id).Nodup := by
      intro feed hfeed
      have spines := wf.spines_nodup
      rw [Plan.allSpines, List.map_append] at spines
      obtain ⟨pre, post, hsplit⟩ := List.append_of_mem hfeed
      refine (List.nodup_append.mp spines).2.1.sublist (List.Sublist.map _ ?_)
      rw [hsplit, List.flatMap_append, List.flatMap_cons]
      exact (List.sublist_append_left _ _).trans (List.sublist_append_right _ _)
    exact List.Forall₂.imp (fun feed x hx => group_of_built hx.2 hx.1)
      ((List.forall₂_and_left _ _).mpr ⟨distinct, built⟩)
  · have below := contributes.below
    rw [List.nil_append, ← hnew₃] at below
    exact below
  · rw [hnew₁]
    exact (List.nodup_append.mp fresh.nodup).2.1

variable {plan : Plan} {metas : List MetaPipeline}

lemma PlanMetas.sink_eq (wf : plan.WellFormed) (h : PlanMetas plan metas) {y z : MetaPipeline}
    (hy : y ∈ metas) (hz : z ∈ metas) {sink sink' op : Operator} (hys : y.sink = some sink)
    (hzs : z.sink = some sink') (hop : op ∈ sink.consumers) (hop' : op ∈ sink'.consumers) :
    y = z := by
  have same : plan.fed = metas.flatMap fun m => m.sink.toList.flatMap Operator.consumers :=
    forall₂_flatMap (List.Forall₂.imp (fun feed m g => by simp [g.1.sink]) h.groups)
  have distinct := (List.nodup_append.mp wf.fed_nodup).1
  rw [same] at distinct
  exact eq_of_mem_flatMap distinct hy hz (by simpa [hys] using hop) (by simpa [hzs] using hop')

lemma PlanMetas.spine_eq (wf : plan.WellFormed) (h : PlanMetas plan metas) {y z : MetaPipeline}
    (hy : y ∈ metas) (hz : z ∈ metas) {op : Operator} (hop : op ∈ y.base.operators)
    (hop' : op ∈ z.base.operators) : y = z := by
  have same : plan.feeds.flatMap (fun feed => feed.2.spine) =
      metas.flatMap fun m => m.base.operators :=
    forall₂_flatMap (List.Forall₂.imp (fun feed m g => g.1.operators.symm) h.groups)
  have distinct := (List.nodup_append.mp (List.Nodup.of_map _ wf.spines_nodup)).2.1
  rw [same] at distinct
  exact eq_of_mem_flatMap distinct hy hz hop hop'

/-- A pipeline that reads a sink is in a group that depends on the sink's group. -/
lemma PlanMetas.depends (wf : plan.WellFormed) (h : PlanMetas plan metas) {y z : MetaPipeline}
    (hy : y ∈ metas) (hz : z ∈ metas) {sink op : Operator} (hsink : z.sink = some sink)
    (hop : op ∈ sink.consumers) {q : Pipeline} (hq : q ∈ y.pipelines)
    (hread : op ∈ uses q) : z.base.id ∈ y.base.dependencies := by
  obtain ⟨feed, hfeed, group, fed⟩ := forall₂_mem_right h.groups hy
  have huse := (group.mem_pipelines hq).2.2 op hread
  rcases fed op huse with ⟨z', hz', hid, sink', hsink', hop'⟩ | free
  · rwa [h.sink_eq wf hz hz' hsink hsink' hop hop']
  · obtain ⟨feed', hfeed', group', _⟩ := forall₂_mem_right h.groups hz
    have hfed : op ∈ plan.fed := by
      refine List.mem_flatMap.mpr ⟨feed', hfeed', ?_⟩
      rwa [Option.some.inj (group'.sink.symm.trans hsink)]
    have hfree : op ∈ plan.allUnfed :=
      List.mem_append_right _ (List.mem_flatMap.mpr ⟨feed, hfeed, free⟩)
    exact absurd rfl ((List.nodup_append.mp wf.fed_nodup).2.2 op hfed op hfree)

@[simp] lemma ids_ready (m : MetaPipeline) : pipelineIds m.ready = pipelineIds m := by
  simp only [pipelineIds, ready_pipelines, List.map_map]
  rfl

@[simp] lemma isScheduled_ready (p : Pipeline) : isScheduled p.ready = isScheduled p := rfl

@[simp] lemma scheduleTasks_head_ready (m : MetaPipeline) :
    scheduleTasks.head m.ready = m.base.id := by
  simp [scheduleTasks, Pipeline.ready]

@[simp] lemma scheduleTasks_needs_ready (m : MetaPipeline) :
    scheduleTasks.needs m.ready = m.base.dependencies := by
  simp [scheduleTasks, Pipeline.ready]

lemma emits_ids (m : MetaPipeline) :
    ((scheduleTasks.emits m).map scheduleTasks.ident).Sublist (pipelineIds m) :=
  List.Sublist.map _ List.filter_sublist

lemma PlanMetas.wellKeyed (h : PlanMetas plan metas) :
    WellKeyed scheduleTasks (metas.map MetaPipeline.ready) := by
  have distinct : ((metas.map MetaPipeline.ready).flatMap pipelineIds).Nodup := by
    simpa [List.flatMap_map] using h.ids
  refine ⟨?_, ?_, ?_⟩
  · intro t ht
    obtain ⟨m, hm, rfl⟩ := List.mem_map.mp ht
    obtain ⟨_, _, group, _⟩ := forall₂_mem_right h.groups hm
    have hbase := group.base_isScheduled
    refine List.mem_map.mpr ⟨m.base.ready, ?_, by simp [scheduleTasks, Pipeline.ready]⟩
    simp [scheduleTasks, MetaPipeline.pipelines, hbase]
  · intro t ht s hs k hkt hks
    exact eq_of_mem_flatMap distinct ht hs ((emits_ids t).subset hkt) ((emits_ids s).subset hks)
  · have heads : ((metas.map MetaPipeline.ready).map fun m => m.base.id).Nodup := by
      refine distinct.sublist ?_
      generalize metas.map MetaPipeline.ready = ms
      induction ms with
      | nil => exact List.Sublist.refl _
      | cons m ms ih =>
        rw [List.map_cons, List.flatMap_cons]
        exact (List.singleton_sublist.mpr (by simp [pipelineIds, MetaPipeline.pipelines])).append
          ih
    exact List.Nodup.of_map _ heads

/-- An order of the groups stays one when they are made ready and all they run is emitted. -/
lemma readyOrder_ready {ms : List MetaPipeline} (keyed : WellKeyed scheduleTasks
    (ms.map MetaPipeline.ready)) {order : List MetaPipeline} (sub : order ⊆ ms) {done : List Nat}
    (ready : ReadyOrder baseTasks done order) :
    ReadyOrder scheduleTasks done (order.map MetaPipeline.ready) := by
  induction order generalizing done with
  | nil => trivial
  | cons m order ih =>
    refine ⟨?_, (ih (fun a ha => sub (List.mem_cons_of_mem m ha)) ready.2).mono ?_⟩
    · rw [scheduleTasks_needs_ready]
      exact ready.1
    · intro k hk
      rcases List.mem_append.mp hk with hk | hk
      · exact List.mem_append_left _ hk
      · obtain rfl : k = m.base.id := by simpa [baseTasks] using hk
        refine List.mem_append_right _ ?_
        have head := keyed.head_emitted m.ready (List.mem_map_of_mem (sub List.mem_cons_self))
        rwa [scheduleTasks_head_ready] at head

lemma PlanMetas.readyOrder (h : PlanMetas plan metas) : ∃ order,
    order.Perm (metas.map MetaPipeline.ready) ∧ ReadyOrder scheduleTasks [] order := by
  obtain ⟨order, perm, ready⟩ := h.finished
  exact ⟨order.map MetaPipeline.ready, perm.map _, readyOrder_ready h.wellKeyed perm.subset ready⟩

lemma mem_flatMap_emits {sched ms : List MetaPipeline} (perm : sched.Perm ms) {q : Pipeline} :
    q ∈ sched.flatMap scheduleTasks.emits ↔
      isScheduled q = true ∧ ∃ m ∈ ms, q ∈ m.pipelines := by
  simp only [List.mem_flatMap, scheduleTasks, List.mem_filter, perm.mem_iff]
  constructor
  · rintro ⟨m, hm, hq, hs⟩
    exact ⟨hs, m, hm, hq⟩
  · rintro ⟨hs, m, hm, hq⟩
    exact ⟨m, hm, hq, hs⟩

lemma Before.of_group {sched : List MetaPipeline} {m : MetaPipeline} (hm : m ∈ sched)
    {p q : Pipeline} (hp : isScheduled p = true) (hq : isScheduled q = true)
    (h : [p, q].Sublist m.pipelines) : Before (sched.flatMap scheduleTasks.emits) p q := by
  have kept : [p, q].Sublist (scheduleTasks.emits m) := by
    have := h.filter isScheduled
    rwa [List.filter_cons_of_pos hp, List.filter_cons_of_pos hq, List.filter_nil] at this
  exact kept.trans (emits_sublist hm)

theorem PlanMetas.topological (wf : plan.WellFormed) (h : PlanMetas plan metas)
    {sched : List MetaPipeline} (perm : sched.Perm (metas.map MetaPipeline.ready))
    (ready : ReadyOrder scheduleTasks [] sched) :
    Topological (metas.map MetaPipeline.ready) (sched.flatMap scheduleTasks.emits) := by
  have keyed := h.wellKeyed
  have complete := fun q => (mem_flatMap_emits perm : q ∈ _ ↔ _)
  have distinct : (sched.flatMap pipelineIds).Nodup := by
    refine (perm.flatMap_right _).nodup_iff.mpr ?_
    simpa [List.flatMap_map] using h.ids
  -- a scheduled pipeline stands in the ready copy of one group
  have home : ∀ q ∈ sched.flatMap scheduleTasks.emits, ∃ m ∈ metas, m.ready ∈ sched ∧
      ∃ q₀ ∈ m.pipelines, q₀.ready = q ∧ q ∈ scheduleTasks.emits m.ready := by
    intro q hq
    obtain ⟨x, hx, hqx⟩ := List.mem_flatMap.mp hq
    obtain ⟨m, hm, rfl⟩ := List.mem_map.mp (perm.subset hx)
    have hmem := List.mem_of_mem_filter hqx
    rw [ready_pipelines] at hmem
    obtain ⟨q₀, hq₀, rfl⟩ := List.mem_map.mp hmem
    exact ⟨m, hm, hx, q₀, hq₀, rfl, hqx⟩
  have inGroup : ∀ m ∈ metas, m.ready ∈ sched := fun m hm =>
    perm.symm.subset (List.mem_map_of_mem hm)
  refine ⟨?_, complete, ?_, ?_, ?_, ?_⟩
  · refine distinct.sublist ?_
    rw [List.map_flatMap]
    exact flatMap_sublist emits_ids sched
  · intro q hq d hd
    obtain ⟨m, hm, hsched, q₀, hq₀, rfl, hemit⟩ := home q hq
    obtain ⟨feed, _, group, _⟩ := forall₂_mem_right h.groups hm
    rcases (group.mem_pipelines hq₀).2.1 with none | rfl
    · simp [Pipeline.ready, none] at hd
    · have needed : d ∈ scheduleTasks.needs m.ready := by
        rw [scheduleTasks_needs_ready]
        exact hd
      obtain ⟨_, _, ⟨p, hp, hid⟩, before⟩ := ready.need_emitted hsched needed hemit
      exact ⟨p, hid, before p hp⟩
  · intro x hx entry hentry p hp q hq hid hdep
    obtain ⟨m, hm, rfl⟩ := List.mem_map.mp hx
    obtain ⟨feed, _, group, _⟩ := forall₂_mem_right h.groups hm
    rw [ready_dependencies] at hentry
    obtain ⟨pre, post, hids, hsub⟩ := group.ordered entry hentry
    have owned : ∀ r ∈ sched.flatMap scheduleTasks.emits, r.id ∈ pipelineIds m →
        r ∈ m.ready.pipelines ∧ isScheduled r = true := by
      intro r hr hrid
      obtain ⟨m', hm', _, r₀, hr₀, rfl, hre⟩ := home r hr
      obtain rfl : m' = m := eq_of_mem_flatMap h.ids hm' hm
        (List.mem_map.mpr ⟨r₀, hr₀, rfl⟩) hrid
      exact ⟨List.mem_of_mem_filter hre, ((complete _).mp hr).1⟩
    have hpm := owned p hp (by rw [hids]; exact List.mem_append_left _ (hsub hdep))
    have hqm := owned q hq (by rw [hids, hid]; simp)
    refine Before.of_group (inGroup m hm) hpm.2 hqm.2 ?_
    have hready : m.ready.pipelines.map Pipeline.id = pipelineIds m := ids_ready m
    have nodup : (pipelineIds m).Nodup := (List.nodup_flatMap.mp h.ids).1 m hm
    exact sublist_of_map_eq (hready ▸ nodup) (hready.trans hids) hpm.1 hqm.1 (hsub hdep) hid
  · intro p hp q hq sink hsink op hop hread
    obtain ⟨z, hz, hzs, p₀, hp₀, rfl, hpe⟩ := home p hp
    obtain ⟨y, hy, hys, q₀, hq₀, rfl, hqe⟩ := home q hq
    obtain ⟨feed, _, group, _⟩ := forall₂_mem_right h.groups hz
    have hzsink : z.sink = some sink :=
      group.sink.trans ((group.mem_pipelines hp₀).1.symm.trans hsink)
    have hread₀ : op ∈ uses q₀ := by
      simpa [uses, Pipeline.ready] using hread
    have depends := h.depends wf hy hz hzsink hop hq₀ hread₀
    refine ready.emits_before keyed perm.subset (perm.subset hzs) hys ?_ hpe hqe
    rwa [scheduleTasks_head_ready, scheduleTasks_needs_ready]
  · intro p hp q hq op join hsource hop
    obtain ⟨x, hx, hxs, p₀, hp₀, rfl, hpe⟩ := home p hp
    obtain ⟨y, hy, hys, q₀, hq₀, rfl, hqe⟩ := home q hq
    obtain ⟨feed, _, group, _⟩ := forall₂_mem_right h.groups hx
    obtain ⟨feed', _, group', _⟩ := forall₂_mem_right h.groups hy
    have hop₀ : op ∈ p₀.operators := List.mem_reverse.mp hop
    have hsource₀ : q₀.source = some op := hsource
    have hx' := group.join_mem join ((group.mem_pipelines hp₀).2.2 op
      (List.mem_append_right _ hop₀))
    have hy' := group'.join_mem join ((group'.mem_pipelines hq₀).2.2 op
      (List.mem_append_left _ (by simp [hsource₀])))
    obtain rfl := h.spine_eq wf hx hy hx' hy'
    refine Before.of_group hxs ((complete _).mp hp).1 ((complete _).mp hq).1 ?_
    rw [ready_pipelines]
    exact (group.probes hp₀ hq₀ join hsource₀ hop₀).map Pipeline.ready

end Topological

section Initialize

theorem buildPlan_total {plan : Plan} (inScope : plan.Scoped [] []) :
    ∃ root st, Builds plan (createMetaPipeline none 0) ⟨1, [], []⟩ root st ∧
      buildPlan plan = .ok root.ready := by
  have nothing : Knows [] [] ⟨1, [], []⟩ := ⟨by simp, by simp, by simp⟩
  obtain ⟨root, st, h, _⟩ := buildPipelines_total inScope nothing (createMetaPipeline none 0)
  refine ⟨root, st, buildPipelines_builds h, ?_⟩
  simp only [buildPlan, h, ok_bind]
  rfl

/-- Once the loop has ended, more fuel changes nothing. -/
theorem scheduleLoop_unique (ms : List MetaPipeline) {fuel fuel' : Nat}
    {s r r' : ScheduleState} (h : scheduleLoop ms fuel s = some r)
    (h' : scheduleLoop ms fuel' s = some r') : r = r' := by
  induction fuel generalizing fuel' s with
  | zero =>
    unfold scheduleLoop at h
    split at h
    · cases h
    · rename_i done
      cases fuel' <;> simp only [scheduleLoop, done, if_false] at h' <;>
        exact Option.some.inj (h.symm.trans h')
  | succ fuel ih =>
    unfold scheduleLoop at h
    split at h
    · rename_i more
      cases fuel' with
      | zero => simp only [scheduleLoop, more, if_true] at h'; cases h'
      | succ fuel' =>
        simp only [scheduleLoop, more, if_true] at h'
        exact ih h h'
    · rename_i done
      cases fuel' <;> simp only [scheduleLoop, done, if_false] at h' <;>
        exact Option.some.inj (h.symm.trans h')

/-- How a schedule comes about: the meta-pipelines below the root, built as `metas`, are
emitted one after another in an order that is ready at every point. -/
structure Scheduling (plan : Plan) (metas : List MetaPipeline) (fuel : Nat)
    (scheduled : List Pipeline) : Prop where
  built : PlanMetas plan metas
  returns : initializeInternal plan fuel = .ok (some scheduled)
  order : ∃ sched, sched.Perm (metas.map MetaPipeline.ready) ∧
    ReadyOrder scheduleTasks [] sched ∧ scheduled = sched.flatMap scheduleTasks.emits

lemma Scheduling.topological {plan : Plan} {metas : List MetaPipeline} {fuel : Nat}
    {scheduled : List Pipeline} (h : Scheduling plan metas fuel scheduled)
    (wf : plan.WellFormed) : Topological (metas.map MetaPipeline.ready) scheduled := by
  obtain ⟨sched, perm, ready, rfl⟩ := h.order
  exact h.built.topological wf perm ready

lemma getMetaPipelines_ready_below (root : MetaPipeline) :
    getMetaPipelines root.ready true true = root.descendants.map MetaPipeline.ready := by
  simp [getMetaPipelines, descendants_ready]

theorem initializeInternal_scheduling {plan : Plan} (wf : plan.WellFormed)
    (inScope : plan.Scoped [] []) :
    ∃ (root : MetaPipeline) (scheduled : List Pipeline), buildPlan plan = .ok root.ready ∧
      Scheduling plan root.descendants (root.descendants.length ^ 2) scheduled := by
  obtain ⟨root, st, builds, hplan⟩ := buildPlan_total inScope
  have metas := planMetas_of_builds wf builds
  obtain ⟨order, perm, ready⟩ := metas.readyOrder
  obtain ⟨s, sched, hloop, hperm, hout, hready⟩ := loop_complete metas.wellKeyed perm ready
  refine ⟨root, s.out, hplan, metas, ?_, sched, hperm, hready, hout⟩
  have hrun := scheduleLoop_toState (root.descendants.map MetaPipeline.ready)
    ((root.descendants.map MetaPipeline.ready).length ^ 2) ⟨[], 0, 0⟩
  rw [Nat.pow_two] at hrun
  rw [List.length_map] at hrun hloop
  rw [Nat.pow_two]
  obtain ⟨s', hs', hto⟩ := Option.map_eq_some_iff.mp (hrun.trans hloop)
  simp only [initializeInternal, hplan, ok_bind, getMetaPipelines_ready_below, hs', ← hto]
  rfl

/-- The loop ends after at most the square of the number of groups, and what it has
appended is everything that is run, once and in an order that respects what is read. -/
theorem initializeInternal_topological {plan : Plan} (wf : plan.WellFormed)
    (inScope : plan.Scoped [] []) :
    ∃ root scheduled, buildPlan plan = .ok root ∧
      initializeInternal plan ((getMetaPipelines root true true).length ^ 2) =
        .ok (some scheduled) ∧
      Topological (getMetaPipelines root true true) scheduled := by
  obtain ⟨root, scheduled, hplan, h⟩ := initializeInternal_scheduling wf inScope
  refine ⟨root.ready, scheduled, hplan, ?_, ?_⟩
  · rw [getMetaPipelines_ready_below, List.length_map]
    exact h.returns
  · rw [getMetaPipelines_ready_below]
    exact h.topological wf

/-- Whatever the fuel, a schedule that is returned is the one that comes about. -/
theorem scheduling_of_returns {plan : Plan} (wf : plan.WellFormed) (inScope : plan.Scoped [] [])
    {fuel : Nat} {scheduled : List Pipeline}
    (h : initializeInternal plan fuel = .ok (some scheduled)) :
    ∃ metas, Scheduling plan metas fuel scheduled := by
  obtain ⟨root, scheduled', hplan, hs⟩ := initializeInternal_scheduling wf inScope
  have hreturns := hs.returns
  simp only [initializeInternal, hplan, ok_bind] at h hreturns
  obtain ⟨s, hloop, rfl⟩ := Option.map_eq_some_iff.mp (Except.ok.inj h)
  obtain ⟨s', hloop', rfl⟩ := Option.map_eq_some_iff.mp (Except.ok.inj hreturns)
  obtain rfl := scheduleLoop_unique _ hloop hloop'
  refine ⟨root.descendants, hs.built, ?_, hs.order⟩
  simp only [initializeInternal, hplan, ok_bind, hloop]
  rfl

/-- An INNER join above a RIGHT join. -/
def innerOverRight : Plan :=
  .resultCollector 0 (.join 1 (.hashJoin .inner)
    (.join 2 (.hashJoin .right) (.scan 3 .tableScan) (.scan 4 .tableScan)) (.scan 5 .tableScan))

theorem innerOverRight_topological :
    ∃ root scheduled, buildPlan innerOverRight = .ok root ∧
      initializeInternal innerOverRight ((getMetaPipelines root true true).length ^ 2) =
        .ok (some scheduled) ∧
      Topological (getMetaPipelines root true true) scheduled :=
  initializeInternal_topological (by decide) (by simp [innerOverRight, Plan.Scoped])

/-- The child pipeline that would scan the inner join's table is never appended. -/
theorem not_every_pipeline_scheduled :
    ¬ ∀ plan : Plan, plan.WellFormed → plan.Scoped [] [] → ∀ root scheduled fuel,
      buildPlan plan = .ok root → initializeInternal plan fuel = .ok (some scheduled) →
      ∀ m ∈ getMetaPipelines root true true, ∀ p ∈ m.pipelines, p ∈ scheduled := by
  intro every
  have skipped := every innerOverRight (by decide) (by simp [innerOverRight, Plan.Scoped]) _ _ 9
    rfl rfl
  revert skipped
  decide

end Initialize

end PipelineSchedule
