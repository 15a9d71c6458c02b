import Mathlib.Data.List.Dedup
import Mathlib.Data.List.Nodup

/-!
# Rows grouped by a key

The groups of a list of rows, in some order, each with a value of its members. Groups of
parts are those of the whole exactly if no key occurs in two parts.
-/

namespace GroupedRows

variable {α κ β : Type} [DecidableEq κ]

/-- The rows of a key. -/
def members (key : α → κ) (rows : List α) (k : κ) : List α := rows.filter fun row => key row = k

def groupBy (key : α → κ) (value : List α → β) (rows : List α) : List (κ × β) :=
  (rows.map key).dedup.map fun k => (k, value (members key rows k))

/-- Every key once, with the value of its rows. -/
structure Groups (key : α → κ) (value : List α → β) (rows : List α)
    (out : List (κ × β)) : Prop where
  once : (out.map Prod.fst).Nodup
  keys : ∀ k, k ∈ out.map Prod.fst ↔ k ∈ rows.map key
  values : ∀ group ∈ out, group.2 = value (members key rows group.1)

/-- No key of the one is a key of the other. -/
def Apart (key : α → κ) (rows rows' : List α) : Prop :=
  ∀ row ∈ rows, ∀ row' ∈ rows', key row ≠ key row'

variable {key : α → κ} {value : List α → β} {rows rows' : List α} {out out' : List (κ × β)}

theorem groupBy_keys : (groupBy key value rows).map Prod.fst = (rows.map key).dedup := by
  rw [groupBy, List.map_map]
  exact List.map_id _

theorem groups_groupBy : Groups key value rows (groupBy key value rows) where
  once := by
    rw [groupBy_keys]
    exact List.nodup_dedup _
  keys k := by rw [groupBy_keys, List.mem_dedup]
  values := by
    intro group member
    obtain ⟨k, -, rfl⟩ := List.mem_map.mp member
    rfl

theorem Groups.nodup (groups : Groups key value rows out) : out.Nodup :=
  List.Nodup.of_map Prod.fst groups.once

/-- Two lists of the groups are the same up to their order. -/
theorem Groups.perm (groups : Groups key value rows out) (groups' : Groups key value rows out') :
    out.Perm out' := by
  have subset {out out' : List (κ × β)} (groups : Groups key value rows out)
      (groups' : Groups key value rows out') (group : κ × β) (member : group ∈ out) :
      group ∈ out' := by
    have known := (groups.keys group.1).mp (List.mem_map_of_mem member)
    obtain ⟨other, member', same⟩ := List.mem_map.mp ((groups'.keys group.1).mpr known)
    have equal : other = group := by
      refine Prod.ext same ?_
      rw [groups'.values other member', groups.values group member, same]
    exact equal ▸ member'
  rw [List.perm_ext_iff_of_nodup groups.nodup groups'.nodup]
  exact fun group => ⟨subset groups groups' group, subset groups' groups group⟩

theorem perm_groupBy_iff : out.Perm (groupBy key value rows) ↔ Groups key value rows out := by
  constructor
  · intro perm
    have groups : Groups key value rows (groupBy key value rows) := groups_groupBy
    have keys := perm.map Prod.fst
    constructor
    · exact keys.nodup_iff.mpr groups.once
    · intro k
      rw [keys.mem_iff, groups.keys]
    · intro group member
      exact groups.values group (perm.mem_iff.mp member)
  · exact fun groups => groups.perm groups_groupBy

theorem groups_nil : Groups key value [] [] where
  once := List.nodup_nil
  keys := fun _ => Iff.rfl
  values := fun _ member => absurd member List.not_mem_nil

theorem Groups.ne_nil (groups : Groups key value rows out) (some : rows ≠ []) : out ≠ [] := by
  rintro rfl
  obtain ⟨row, member⟩ := List.exists_mem_of_ne_nil rows some
  exact List.not_mem_nil ((groups.keys (key row)).mpr (List.mem_map_of_mem member))

theorem members_append (k : κ) :
    members key (rows ++ rows') k = members key rows k ++ members key rows' k :=
  List.filter_append _ _

theorem members_eq_nil {k : κ} (none : k ∉ rows.map key) : members key rows k = [] := by
  rw [members, List.filter_eq_nil_iff]
  intro row member same
  exact none (of_decide_eq_true same ▸ List.mem_map_of_mem member)

theorem Groups.append (groups : Groups key value rows out)
    (groups' : Groups key value rows' out') (apart : Apart key rows rows') :
    Groups key value (rows ++ rows') (out ++ out') := by
  have outside {k : κ} (here : k ∈ rows.map key) (there : k ∈ rows'.map key) : False := by
    obtain ⟨row, member, rfl⟩ := List.mem_map.mp here
    obtain ⟨row', member', same⟩ := List.mem_map.mp there
    exact apart row member row' member' same.symm
  constructor
  · rw [List.map_append, List.nodup_append']
    refine ⟨groups.once, groups'.once, fun k member member' => ?_⟩
    exact outside ((groups.keys k).mp member) ((groups'.keys k).mp member')
  · intro k
    rw [List.map_append, List.map_append, List.mem_append, List.mem_append, groups.keys,
      groups'.keys]
  · intro group member
    rw [members_append]
    rcases List.mem_append.mp member with here | there
    · have known := (groups.keys group.1).mp (List.mem_map_of_mem here)
      rw [members_eq_nil (outside known), List.append_nil]
      exact groups.values group here
    · have known := (groups'.keys group.1).mp (List.mem_map_of_mem there)
      rw [members_eq_nil fun here => outside here known, List.nil_append]
      exact groups'.values group there

omit [DecidableEq κ] in
/-- Parts whose keys are all different have no key in common. -/
theorem pairwise_apart {parts : List (List α × List κ)}
    (each : ∀ part ∈ parts, ∀ k, k ∈ part.2 ↔ k ∈ part.1.map key)
    (once : (parts.map Prod.snd).flatten.Nodup) :
    parts.Pairwise fun part part' => Apart key part.1 part'.1 := by
  rw [List.nodup_flatten] at once
  refine (List.pairwise_map.mp once.2).imp_of_mem fun {part part'} member member' disjoint => ?_
  intro row here row' there same
  refine disjoint ((each part member (key row)).mpr (List.mem_map_of_mem here)) ?_
  rw [same]
  exact (each part' member' (key row')).mpr (List.mem_map_of_mem there)

/-- The groups of parts without a common key are those of all rows. -/
theorem groups_flatten {parts : List (List α × List (κ × β))}
    (each : ∀ part ∈ parts, Groups key value part.1 part.2)
    (apart : parts.Pairwise fun part part' => Apart key part.1 part'.1) :
    Groups key value (parts.map Prod.fst).flatten (parts.map Prod.snd).flatten := by
  induction parts with
  | nil => exact groups_nil
  | cons part rest ih =>
      obtain ⟨first, later⟩ := List.pairwise_cons.mp apart
      have others := ih (fun part member => each part (List.mem_cons_of_mem _ member)) later
      rw [List.map_cons, List.map_cons, List.flatten_cons, List.flatten_cons]
      refine (each part List.mem_cons_self).append others fun row here row' there => ?_
      obtain ⟨rows, member, inside⟩ := List.mem_flatten.mp there
      obtain ⟨part', member', rfl⟩ := List.mem_map.mp member
      exact first part' member' row here row' inside

/-- Of parts without a common key one has all rows of its keys. -/
theorem members_flatten {parts : List (List α)}
    (apart : parts.Pairwise fun part part' => Apart key part part') {part : List α}
    (member : part ∈ parts) {row : α} (inside : row ∈ part) :
    members key parts.flatten (key row) = members key part (key row) := by
  have elsewhere {rest : List (List α)} (others : ∀ part' ∈ rest, key row ∉ part'.map key) :
      key row ∉ rest.flatten.map key := by
    intro known
    obtain ⟨row', there, same⟩ := List.mem_map.mp known
    obtain ⟨part', member', inside'⟩ := List.mem_flatten.mp there
    exact others part' member' (List.mem_map.mpr ⟨row', inside', same⟩)
  induction parts with
  | nil => cases member
  | cons first rest ih =>
      obtain ⟨head, later⟩ := List.pairwise_cons.mp apart
      rw [List.flatten_cons, members_append]
      rcases List.mem_cons.mp member with rfl | member
      · rw [members_eq_nil (elsewhere fun part' member' known => ?_), List.append_nil]
        obtain ⟨row', there, same⟩ := List.mem_map.mp known
        exact head part' member' row inside row' there same.symm
      · rw [members_eq_nil fun known => ?_, List.nil_append, ih later member]
        obtain ⟨row', here, same⟩ := List.mem_map.mp known
        exact head part member row' here row inside same

/-- Rows that are read off others have their groups. -/
theorem Groups.map {γ : Type} {f : γ → α} {rows : List γ}
    (groups : Groups (key ∘ f) (fun rows => value (rows.map f)) rows out) :
    Groups key value (rows.map f) out where
  once := groups.once
  keys k := by rw [groups.keys, List.map_map]
  values group member := by
    have made := groups.values group member
    rw [made, members, members, List.filter_map]
    rfl

/-- The values of groups can be changed one by one. -/
theorem Groups.revalue {γ : Type} {value' : List α → γ} (f : β → γ)
    (groups : Groups key value rows out)
    (same : ∀ k ∈ rows.map key, f (value (members key rows k)) = value' (members key rows k)) :
    Groups key value' rows (out.map fun group => (group.1, f group.2)) := by
  have keys : (out.map fun group => (group.1, f group.2)).map Prod.fst = out.map Prod.fst := by
    rw [List.map_map]
    rfl
  constructor
  · rw [keys]
    exact groups.once
  · intro k
    rw [keys, groups.keys]
  · intro group member
    obtain ⟨old, member', rfl⟩ := List.mem_map.mp member
    have known := (groups.keys old.1).mp (List.mem_map_of_mem member')
    rw [groups.values old member', same old.1 known]

/-- Groups with another value are the same where the values are. -/
theorem Groups.values_iff {value' : List α → β} (groups : Groups key value rows out) :
    Groups key value' rows out ↔ ∀ row ∈ rows,
      value (members key rows (key row)) = value' (members key rows (key row)) := by
  constructor
  · intro groups' row inside
    obtain ⟨group, member, same⟩ :=
      List.mem_map.mp ((groups.keys (key row)).mpr (List.mem_map_of_mem inside))
    rw [← same, ← groups.values group member, groups'.values group member]
  · intro same
    refine ⟨groups.once, groups.keys, fun group member => ?_⟩
    have known := (groups.keys group.1).mp (List.mem_map_of_mem member)
    obtain ⟨row, inside, equal⟩ := List.mem_map.mp known
    rw [groups.values group member, ← equal]
    exact same row inside

end GroupedRows
