import Mathlib.Data.List.Nodup
import SiriusGpu.PipelineGrowth
import SiriusGpu.RoundRobin

/-!
# Identities and dependencies of the pipelines of a plan

Pipelines get fresh numbers. What a base pipeline depends on is finished before
its own meta-pipeline is: its children, and the meta-pipelines of the CTEs and
delim joins it scans. The order in which meta-pipelines are finished is therefore
an order that meets all dependencies.
-/

namespace PipelineOrder

open PhysicalPlan PipelineBuild PipelineGrowth

section Identities

def pipelineIds (m : MetaPipeline) : List Nat := m.pipelines.map Pipeline.id

/-- Distinct numbers handed out while the counter moved from `lo` to `hi`. -/
structure FreshIds (lo hi : Nat) (ids : List Nat) : Prop where
  le : lo ≤ hi
  nodup : ids.Nodup
  range : ∀ i ∈ ids, lo ≤ i ∧ i < hi

lemma FreshIds.nil (lo : Nat) : FreshIds lo lo [] := ⟨Nat.le_refl _, List.nodup_nil, by simp⟩

lemma FreshIds.single (lo : Nat) : FreshIds lo (lo + 1) [lo] :=
  ⟨by omega, List.nodup_singleton lo, by simp⟩

lemma FreshIds.append {lo mid hi : Nat} {xs ys : List Nat} (first : FreshIds lo mid xs)
    (second : FreshIds mid hi ys) : FreshIds lo hi (xs ++ ys) := by
  refine ⟨Nat.le_trans first.le second.le, ?_, ?_⟩
  · refine List.nodup_append.mpr ⟨first.nodup, second.nodup, ?_⟩
    intro a ha b hb
    have := first.range a ha
    have := second.range b hb
    omega
  · intro i hi
    have h₁ := first.le
    have h₂ := second.le
    rcases List.mem_append.mp hi with hi | hi
    · have := first.range i hi
      omega
    · have := second.range i hi
      omega

lemma FreshIds.perm {lo hi : Nat} {xs ys : List Nat} (fresh : FreshIds lo hi xs)
    (perm : xs.Perm ys) : FreshIds lo hi ys :=
  ⟨fresh.le, perm.nodup_iff.mp fresh.nodup, fun i hi => fresh.range i (perm.symm.subset hi)⟩

variable {p : Plan} {m m' : MetaPipeline} {st st' : BuildState}

/-- The numbers of the pipelines a build adds: child pipelines, then those below. -/
def NewIds (m m' : MetaPipeline) (ids : List Nat) : Prop :=
  ∃ more new, m'.childPipelines = m.childPipelines ++ more ∧
    m'.descendants = m.descendants ++ new ∧
    ids = more.map Pipeline.id ++ new.flatMap pipelineIds

lemma newIds_attach {c : MetaPipeline} {op : Operator} {ids : List Nat} {st₀ : BuildState}
    (new : NewIds (startMeta op st) c ids) (frame : c.base.id = st.nextId) :
    ∃ all, NewIds m (attach m c st₀) all ∧ (st.nextId :: ids).Perm all := by
  obtain ⟨more, below, hmore, hbelow, rfl⟩ := new
  refine ⟨_, ⟨[], c :: below, (List.append_nil _).symm, ?_, rfl⟩, ?_⟩
  · rw [attach_descendants, hbelow]
    rfl
  · have hmore' : c.childPipelines = more := hmore
    simp [pipelineIds, MetaPipeline.pipelines, frame, hmore']

lemma NewIds.trans {m₁ m₂ m₃ : MetaPipeline} {xs ys : List Nat} (first : NewIds m₁ m₂ xs)
    (second : NewIds m₂ m₃ ys) : ∃ all, NewIds m₁ m₃ all ∧ (xs ++ ys).Perm all := by
  obtain ⟨more, new, hmore, hnew, rfl⟩ := first
  obtain ⟨more', new', hmore', hnew', rfl⟩ := second
  refine ⟨_, ⟨more ++ more', new ++ new', by rw [hmore', hmore, List.append_assoc],
    by rw [hnew', hnew, List.append_assoc], rfl⟩, ?_⟩
  simp only [List.map_append, List.flatMap_append, List.append_assoc]
  refine List.Perm.append_left _ ?_
  rw [← List.append_assoc, ← List.append_assoc]
  exact List.Perm.append_right _ List.perm_append_comm

lemma newIds_closeJoin (source : Bool) (op : Operator) (last : Nat) (m : MetaPipeline)
    (st : BuildState) : ∃ ids, NewIds m (closeJoin source op last m st).1 ids ∧
      FreshIds st.nextId (closeJoin source op last m st).2.nextId ids := by
  cases source with
  | false => exact ⟨[], ⟨[], [], by simp [closeJoin]⟩, FreshIds.nil _⟩
  | true =>
    refine ⟨[st.nextId], ⟨[executorCreateChildPipeline m.base op st.nextId], [], rfl, ?_, rfl⟩,
      FreshIds.single _⟩
    rw [closeJoin_descendants, List.append_nil]

/-- Child, then rest: the numbers of both in one row. -/
lemma newIds_node {c m₁ m₂ : MetaPipeline} {op : Operator} {below rest : List Nat}
    {st₁ st₂ : BuildState} (frame : c.base.id = st.nextId)
    (child : NewIds (startMeta op st) c below)
    (freshChild : FreshIds (st.nextId + 1) st₁.nextId below)
    (attached : ∀ all, NewIds m (attach m c st) all → NewIds m m₁ all)
    (tail : NewIds m₁ m₂ rest) (freshTail : FreshIds st₁.nextId st₂.nextId rest) :
    ∃ ids, NewIds m m₂ ids ∧ FreshIds st.nextId st₂.nextId ids := by
  have own : ∃ all, NewIds m (attach m c st) all ∧ (st.nextId :: below).Perm all :=
    newIds_attach child frame
  obtain ⟨all, hall, permAll⟩ := own
  obtain ⟨ids, hids, permIds⟩ := (attached all hall).trans tail
  refine ⟨ids, hids, ?_⟩
  have fresh := ((FreshIds.single st.nextId).append freshChild).append freshTail
  exact fresh.perm ((List.Perm.append_right _ permAll).trans permIds)

theorem builds_ids (h : Builds p m st m' st') :
    ∃ ids, NewIds m m' ids ∧ FreshIds st.nextId st'.nextId ids := by
  induction h with
  | scan | delimScan | cteScan =>
    exact ⟨[], ⟨[], [], (List.append_nil _).symm, (List.append_nil _).symm, rfl⟩, FreshIds.nil _⟩
  | stream _ _ ih => exact ih
  | @breaker _ _ _ m st c st' _ below ih =>
    obtain ⟨ids, hids, fresh⟩ := ih
    exact newIds_node (builds_frame below).1 hids fresh (fun _ h => h)
      ⟨[], [], (List.append_nil _).symm, (List.append_nil _).symm, rfl⟩ (FreshIds.nil _)
  | @join _ _ _ _ m _ c _ m₂ st₂ build probe ihb ihp =>
    obtain ⟨ids, hids, fresh⟩ := ihb
    obtain ⟨rest, hrest, freshRest⟩ := ihp
    obtain ⟨close, hclose, freshClose⟩ := newIds_closeJoin _ _ _ m₂ st₂
    obtain ⟨tail, htail, perm⟩ := hrest.trans hclose
    exact newIds_node (builds_frame build).1 hids fresh (fun _ h => h) htail
      ((freshRest.append freshClose).perm perm)
  | @cte _ _ _ _ m _ c _ _ _ define _ ihd ihq =>
    obtain ⟨ids, hids, fresh⟩ := ihd
    obtain ⟨rest, hrest, freshRest⟩ := ihq
    exact newIds_node (builds_frame define).1 hids fresh (fun _ h => h) hrest freshRest
  | @leftDelimJoin _ _ _ _ _ _ _ _ m _ c _ _ _ duplicates _ ihl ihr =>
    obtain ⟨ids, hids, fresh⟩ := ihl
    obtain ⟨rest, hrest, freshRest⟩ := ihr
    exact newIds_node (builds_frame duplicates).1 hids fresh (fun _ h => h) hrest freshRest
  | @rightDelimJoin _ _ _ _ _ _ _ _ m _ c _ m₂ st₂ duplicates probe ihr ihl =>
    obtain ⟨ids, hids, fresh⟩ := ihr
    obtain ⟨rest, hrest, freshRest⟩ := ihl
    obtain ⟨close, hclose, freshClose⟩ := newIds_closeJoin _ _ _ m₂ st₂
    obtain ⟨tail, htail, perm⟩ := hrest.trans hclose
    exact newIds_node (builds_frame duplicates).1 hids fresh (fun _ h => h) htail
      ((freshRest.append freshClose).perm perm)
  | @resultCollector _ _ m _ c _ below ih =>
    obtain ⟨ids, hids, fresh⟩ := ih
    exact newIds_node (builds_frame below).1 hids fresh (fun _ h => h)
      ⟨[], [], (List.append_nil _).symm, (List.append_nil _).symm, rfl⟩ (FreshIds.nil _)

end Identities

section Group

variable {p : Plan} {m m' : MetaPipeline} {st st' : BuildState}

/-- Inside a meta-pipeline a pipeline depends on pipelines that stand before it. -/
def GroupOrdered (m : MetaPipeline) : Prop :=
  ∀ entry ∈ m.dependencies, ∃ pre post,
    pipelineIds m = pre ++ entry.1 :: post ∧ entry.2 ⊆ pre

lemma GroupOrdered.congr (h : GroupOrdered m) (ids : pipelineIds m' = pipelineIds m)
    (dependencies : m'.dependencies = m.dependencies) : GroupOrdered m' := by
  intro entry hentry
  obtain ⟨pre, post, hids, hsub⟩ := h entry (dependencies ▸ hentry)
  exact ⟨pre, post, by rw [ids, hids], hsub⟩

lemma GroupOrdered.createChildPipeline (h : GroupOrdered m) (op : Operator) (last id : Nat) :
    GroupOrdered (m.createChildPipeline op last id) := by
  have hids : pipelineIds (m.createChildPipeline op last id) = pipelineIds m ++ [id] := by
    simp [pipelineIds, MetaPipeline.pipelines, MetaPipeline.createChildPipeline,
      executorCreateChildPipeline]
  intro entry hentry
  rcases List.mem_append.mp hentry with hold | hnew
  · obtain ⟨pre, post, hpre, hsub⟩ := h entry hold
    exact ⟨pre, post ++ [id], by rw [hids, hpre]; simp, hsub⟩
  · obtain rfl := List.mem_singleton.mp hnew
    refine ⟨pipelineIds m, [], hids, ?_⟩
    intro d hd
    rcases List.mem_append.mp hd with hd | hd
    · obtain ⟨hmem, hne⟩ := List.mem_filter.mp hd
      have hmem := List.mem_of_mem_drop hmem
      have hmem := (List.dropWhile_sublist _).subset hmem
      rw [← List.cons_append, List.map_append] at hmem
      rcases List.mem_append.mp hmem with hmem | hmem
      · exact hmem
      · simp [executorCreateChildPipeline] at hmem hne
        exact absurd hmem hne
    · obtain rfl := List.mem_singleton.mp hd
      simp [pipelineIds, MetaPipeline.pipelines]

lemma GroupOrdered.closeJoin (h : GroupOrdered m) (source : Bool) (op : Operator) (last : Nat) :
    GroupOrdered (closeJoin source op last m st).1 := by
  cases source
  · exact h
  · exact h.createChildPipeline op last st.nextId

theorem builds_group (h : Builds p m st m' st') (group : GroupOrdered m) : GroupOrdered m' := by
  induction h with
  | scan | delimScan | cteScan => exact group.congr rfl rfl
  | stream _ _ ih => exact ih (group.congr rfl rfl)
  | breaker | resultCollector => exact group.congr rfl rfl
  | join _ _ _ ih => exact (ih (group.congr rfl rfl)).closeJoin _ _ _
  | cte _ _ _ ih => exact ih (group.congr rfl rfl)
  | leftDelimJoin _ _ _ ih => exact ih (group.congr rfl rfl)
  | rightDelimJoin _ _ _ ih => exact (ih (group.congr rfl rfl)).closeJoin _ _ _

end Group

section Dependencies

open RoundRobin

variable {p : Plan} {m m' : MetaPipeline} {st st' : BuildState}

/-- Meta-pipelines as tasks that wait for what their base pipelines depend on. -/
def baseTasks : Tasks MetaPipeline Nat Nat where
  head m := m.base.id
  needs m := m.base.dependencies
  emits m := [m.base.id]
  ident := id

/-- The pipelines a scan may be made to depend on. -/
def offered (st : BuildState) : List Nat :=
  st.cteDependencies.map (·.2) ++ st.delimJoinDependencies.map (·.2.1)

/-- A build adds meta-pipelines that can be finished one after the other, given what is
available, and lets its base pipeline depend on these and on what is available. -/
structure Finished (m m' : MetaPipeline) (st st' : BuildState) (finished : List MetaPipeline) :
    Prop where
  descendants : ∃ new, m'.descendants = m.descendants ++ new ∧ finished.Perm new
  ordered : ReadyOrder baseTasks (offered st) finished
  depends : m'.base.dependencies ⊆
    m.base.dependencies ++ (offered st ++ finished.map (·.base.id))
  leaves : offered st' ⊆ offered st ++ finished.map (·.base.id)

lemma finished_ids (ms : List MetaPipeline) :
    (ms.flatMap baseTasks.emits).map baseTasks.ident = ms.map (·.base.id) := by
  induction ms with
  | nil => rfl
  | cons m ms ih => simpa [baseTasks] using ih

/-- A child meta-pipeline is finished after those below it. -/
lemma Finished.child {op : Operator} {c : MetaPipeline} {st₁ : BuildState}
    {finished : List MetaPipeline} (h : Finished (startMeta op st) c (advance st) st₁ finished) :
    (finished ++ [c]).Perm (c :: c.descendants) ∧
      ReadyOrder baseTasks (offered st) (finished ++ [c]) := by
  obtain ⟨⟨new, hnew, perm⟩, ordered, depends, _⟩ := h
  have hbelow : c.descendants = new := hnew
  refine ⟨?_, ?_⟩
  · rw [hbelow]
    exact List.perm_append_comm.trans (List.Perm.cons c perm)
  · refine ordered.snoc ?_
    rw [finished_ids]
    exact depends

lemma Finished.node {op : Operator} {c m₁ : MetaPipeline} {st₁ st₂ : BuildState}
    {below rest : List MetaPipeline} (frame : c.base.id = st.nextId)
    (child : Finished (startMeta op st) c (advance st) st₁ below)
    (attached : m₁.descendants = m.descendants ++ c :: c.descendants)
    (dependencies : m₁.base.dependencies = m.base.dependencies ++ [st.nextId])
    (registered : offered st₂ ⊆ offered st₁ ++ [st.nextId])
    (tail : Finished m₁ m' st₂ st' rest) :
    Finished m m' st st' (below ++ [c] ++ rest) := by
  obtain ⟨perm, ordered⟩ := child.child
  obtain ⟨⟨new, hnew, permRest⟩, orderedRest, depends, avail⟩ := tail
  -- what is available to the tail: the old entries, the child and those below it
  have grown : offered st₂ ⊆ offered st ++ (below ++ [c]).map (·.base.id) := by
    intro k hk
    rcases List.mem_append.mp (registered hk) with hk | hk
    · have := child.leaves hk
      simp only [List.map_append, List.mem_append] at this ⊢
      tauto
    · simp only [List.map_append, List.map_cons, List.mem_append]
      rw [frame]
      tauto
  refine ⟨⟨c :: c.descendants ++ new, ?_, perm.append permRest⟩, ?_, ?_, ?_⟩
  · rw [hnew, attached, List.append_assoc]
  · refine readyOrder_append.mpr ⟨ordered, orderedRest.mono ?_⟩
    rw [finished_ids]
    exact grown
  · intro k hk
    have hk := depends hk
    rw [dependencies] at hk
    simp only [List.mem_append, List.map_append] at hk grown ⊢
    rcases hk with (hk | hk) | hk | hk
    · exact Or.inl hk
    · rw [List.mem_singleton] at hk
      subst hk
      simp [frame]
    · have := grown hk
      simp only [List.mem_append] at this
      tauto
    · tauto
  · intro k hk
    have hk := avail hk
    simp only [List.mem_append, List.map_append] at hk grown ⊢
    rcases hk with hk | hk
    · have := grown hk
      simp only [List.mem_append] at this
      tauto
    · tauto

lemma Finished.leaf (descendants : m'.descendants = m.descendants)
    (depends : m'.base.dependencies ⊆ m.base.dependencies ++ offered st) :
    Finished m m' st st [] :=
  ⟨⟨[], by simp [descendants], List.Perm.refl _⟩, trivial, by simpa using depends, by simp⟩

lemma offered_registerCteScans (scans : List OpId) (pipeline : Nat) (st : BuildState) :
    offered (registerCteScans scans pipeline st) ⊆ offered st ++ [pipeline] := by
  intro k hk
  simp only [offered, registerCteScans, List.map_append, List.map_map, List.mem_append,
    List.mem_map, List.mem_singleton, Function.comp_apply] at hk ⊢
  rcases hk with (hk | ⟨_, _, rfl⟩) | hk
  · exact Or.inl (Or.inl hk)
  · exact Or.inr rfl
  · exact Or.inl (Or.inr hk)

lemma offered_registerDelimScans (scans : List OpId) (pipeline : Nat) (sink : Operator)
    (st : BuildState) :
    offered (registerDelimScans scans pipeline sink st) ⊆ offered st ++ [pipeline] := by
  intro k hk
  simp only [offered, registerDelimScans, List.map_append, List.map_map, List.mem_append,
    List.mem_map, List.mem_singleton, Function.comp_apply] at hk ⊢
  rcases hk with hk | hk | ⟨_, _, rfl⟩
  · exact Or.inl (Or.inl hk)
  · exact Or.inl (Or.inr hk)
  · exact Or.inr rfl

lemma lookup_mem {α : Type} {entries : List (OpId × α)} {op : OpId} {a : α}
    (h : lookup entries op = some a) : (op, a) ∈ entries := by
  unfold lookup at h
  obtain ⟨entry, hfind, rfl⟩ := Option.map_eq_some_iff.mp h
  have hop : entry.1 = op := by simpa using List.find?_some hfind
  rw [← hop]
  exact List.mem_of_find?_eq_some hfind

lemma offered_closeJoin (source : Bool) (op : Operator) (last : Nat) (m : MetaPipeline)
    (st : BuildState) : offered (closeJoin source op last m st).2 = offered st := by
  cases source <;> rfl

lemma Finished.close {finished : List MetaPipeline} (h : Finished m m' st st' finished)
    (source : Bool) (op : Operator) (last : Nat) :
    Finished m (closeJoin source op last m' st').1 st (closeJoin source op last m' st').2
      finished :=
  ⟨by rw [closeJoin_descendants]; exact h.descendants, h.ordered,
    by rw [closeJoin_base]; exact h.depends, by rw [offered_closeJoin]; exact h.leaves⟩

theorem builds_finished (h : Builds p m st m' st') :
    ∃ finished, Finished m m' st st' finished := by
  induction h with
  | scan => exact ⟨[], Finished.leaf rfl (List.subset_append_left _ _)⟩
  | @delimScan op pipeline sink distinct m st entry _ =>
    refine ⟨[], Finished.leaf rfl ?_⟩
    have : pipeline ∈ offered st :=
      List.mem_append_right _ (List.mem_map.mpr ⟨_, lookup_mem entry, rfl⟩)
    intro k hk
    rcases List.mem_append.mp hk with hk | hk
    · exact List.mem_append_left _ hk
    · exact List.mem_append_right _ (List.mem_singleton.mp hk ▸ this)
  | @cteScan op pipeline m st entry =>
    refine ⟨[], Finished.leaf rfl ?_⟩
    have : pipeline ∈ offered st :=
      List.mem_append_left _ (List.mem_map.mpr ⟨_, lookup_mem entry, rfl⟩)
    intro k hk
    rcases List.mem_append.mp hk with hk | hk
    · exact List.mem_append_left _ hk
    · exact List.mem_append_right _ (List.mem_singleton.mp hk ▸ this)
  | stream _ _ ih =>
    obtain ⟨finished, ⟨descendants, ordered, depends, leaves⟩⟩ := ih
    exact ⟨finished, descendants, ordered, depends, leaves⟩
  | breaker _ below ih =>
    obtain ⟨finished, hfin⟩ := ih
    exact ⟨_, Finished.node (builds_frame below).1 hfin (attach_descendants _) rfl (by simp)
      (Finished.leaf rfl (List.subset_append_left _ _))⟩
  | @join _ _ _ _ m st c _ m₂ st₂ build probe ihb ihp =>
    obtain ⟨finished, hfin⟩ := ihb
    obtain ⟨rest, hrest⟩ := ihp
    have node : Finished m m₂ st st₂ (finished ++ [c] ++ rest) :=
      Finished.node (builds_frame build).1 hfin
        (by rw [attach_descendants, addPipelineOperator_descendants]) rfl
        (List.subset_append_left _ _) hrest
    exact ⟨_, node.close _ _ _⟩
  | cte define query ihd ihq =>
    obtain ⟨finished, hfin⟩ := ihd
    obtain ⟨rest, hrest⟩ := ihq
    exact ⟨_, Finished.node (builds_frame define).1 hfin (attach_descendants _) rfl
      (offered_registerCteScans _ _ _) hrest⟩
  | leftDelimJoin duplicates _ ihl ihr =>
    obtain ⟨finished, hfin⟩ := ihl
    obtain ⟨rest, hrest⟩ := ihr
    exact ⟨_, Finished.node (builds_frame duplicates).1 hfin (attach_descendants _) rfl
      (offered_registerDelimScans _ _ _ _) hrest⟩
  | @rightDelimJoin _ _ _ _ _ _ _ _ m st c _ m₂ st₂ duplicates probe ihr ihl =>
    obtain ⟨finished, hfin⟩ := ihr
    obtain ⟨rest, hrest⟩ := ihl
    have node : Finished m m₂ st st₂ (finished ++ [c] ++ rest) := by
      refine Finished.node (builds_frame duplicates).1 hfin ?_ ?_ ?_ hrest
      · rw [addPipelineOperator_descendants, attach_descendants]
      · rfl
      · exact offered_registerDelimScans _ _ _ _
    exact ⟨_, node.close _ _ _⟩
  | resultCollector below ih =>
    obtain ⟨finished, hfin⟩ := ih
    exact ⟨_, Finished.node (builds_frame below).1 hfin (attach_descendants _) rfl (by simp)
      (Finished.leaf rfl (List.subset_append_left _ _))⟩

end Dependencies

end PipelineOrder
