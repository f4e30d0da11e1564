import GraphQL.Proofs.Execution.Collecting

/-
  The fields that are collected under a key.

  Groups of distinct keys are known by the fields under each
  key. Under any key, selections that follow each other have
  the fields of each of them, less some that are met again.

  Key definitions include:
    * `FieldGroup.fieldsAt`, `Collector.fieldsAt`

  Main declarations:
    * `FieldGroup.fieldsAt_ofNodes`
    * `Collector.nodes_eq_fieldsAt`
    * `Collector.repeats_fieldsAt_flatMap`
-/

------------------------------------------------------------
-- Groups
------------------------------------------------------------

namespace GraphQL

/- Members that are met again may be picked with the others. -/
theorem Repeats.filter
    {α : Type}
    {xs ys : List α}
    (h : Repeats xs ys)
    (pick : α → Bool) :
    Repeats (xs.filter pick) (ys.filter pick) := by
  induction h with
  | nil => exact .nil
  | first a _ ih =>
      rw [List.filter_append, List.filter_append]
      exact ih.append (.refl _)
  | @again xs ys a _ hMem ih =>
      rw [List.filter_append]
      refine ih.append_subset ?_
      intro b hb
      rcases List.mem_filter.1 hb with ⟨hSame, hPick⟩
      rw [List.mem_singleton.1 hSame] at hPick ⊢
      exact List.mem_filter.2 ⟨hMem, hPick⟩

namespace FieldGroup

variable {groups : List FieldGroup}

/- The fields in the groups of a key. -/
def fieldsAt (key : String) (groups : List FieldGroup) :
    List FieldNode :=
  (groups.filter fun group => group.key == key).flatMap nodes

theorem fieldsAt_cons
    (key : String)
    (group : FieldGroup)
    (groups : List FieldGroup) :
    fieldsAt key (group :: groups) =
      (if group.key = key then group.nodes else []) ++
        fieldsAt key groups := by
  unfold fieldsAt
  by_cases hKey : group.key = key <;> simp [hKey]

/- There are fields under the keys of groups, and no others. -/
theorem fieldsAt_eq_nil_iff {key : String} :
    fieldsAt key groups = [] ↔
      key ∉ groups.map FieldGroup.key := by
  induction groups with
  | nil => simp [fieldsAt]
  | cons group rest ih =>
      rw [fieldsAt_cons, List.append_eq_nil_iff, ih]
      by_cases hKey : group.key = key
      · simp [hKey, nodes]
      · simp [hKey, Ne.symm hKey]

/- A group of distinct groups has the fields under its key. -/
theorem fieldsAt_of_mem
    (hNodup : (groups.map FieldGroup.key).Nodup)
    {group : FieldGroup}
    (h : group ∈ groups) :
    fieldsAt group.key groups = group.nodes := by
  induction groups with
  | nil => cases h
  | cons first rest ih =>
      rw [List.map_cons, List.nodup_cons] at hNodup
      rw [fieldsAt_cons]
      rcases List.mem_cons.1 h with rfl | hRest
      · rw [if_pos rfl, fieldsAt_eq_nil_iff.2 hNodup.1,
          List.append_nil]
      · have hNe : first.key ≠ group.key := fun hSame =>
          hNodup.1 (hSame ▸ List.mem_map_of_mem hRest)
        rw [if_neg hNe, List.nil_append, ih hNodup.2 hRest]

/- The order of distinct groups does not matter. -/
theorem fieldsAt_perm
    {others : List FieldGroup}
    (hNodup : (groups.map FieldGroup.key).Nodup)
    (h : groups.Perm others)
    (key : String) :
    fieldsAt key groups = fieldsAt key others := by
  have hKeys := h.map FieldGroup.key
  by_cases hKey : key ∈ groups.map FieldGroup.key
  · rcases List.mem_map.1 hKey with ⟨group, hGroup, rfl⟩
    rw [fieldsAt_of_mem hNodup hGroup,
      fieldsAt_of_mem (hKeys.nodup_iff.1 hNodup)
        (h.subset hGroup)]
  · rw [fieldsAt_eq_nil_iff.2 hKey,
      fieldsAt_eq_nil_iff.2 fun hOther =>
        hKey (hKeys.symm.subset hOther)]

/- A field is added last under its key. -/
theorem fieldsAt_add
    (hNodup : (groups.map FieldGroup.key).Nodup)
    (key other : String)
    (node : FieldNode) :
    fieldsAt key (add other node groups) =
      fieldsAt key groups ++
        if other = key then [node] else [] := by
  induction groups with
  | nil =>
      rw [add, fieldsAt_cons]
      simp [fieldsAt, nodes]
  | cons group rest ih =>
      rw [List.map_cons, List.nodup_cons] at hNodup
      rw [add]
      split
      · next hGroup =>
          rw [fieldsAt_cons, fieldsAt_cons]
          by_cases hKey : group.key = key
          · have hNone : fieldsAt key rest = [] :=
              fieldsAt_eq_nil_iff.2 (hKey ▸ hNodup.1)
            have hOther : other = key := hGroup.symm.trans hKey
            simp [hKey, hNone, hOther, nodes]
          · have hOther : other ≠ key := fun hSame =>
              hKey (hGroup.trans hSame)
            simp [hKey, hOther]
      · rw [fieldsAt_cons, fieldsAt_cons, ih hNodup.2,
          List.append_assoc]

/- Fields are grouped in order. -/
theorem fieldsAt_ofNodes
    (key : String)
    (nodes : List FieldNode) :
    fieldsAt key (ofNodes nodes) =
      nodes.filter fun node =>
        node.head.responseKey == key := by
  induction nodes using List.reverseRecOn with
  | nil => rfl
  | append_singleton nodes node ih =>
      rw [ofNodes_append_singleton,
        fieldsAt_add (nodup_keys_ofNodes nodes), ih,
        List.filter_append]
      by_cases hKey : node.head.responseKey = key <;>
        simp [hKey]

end FieldGroup

------------------------------------------------------------
-- Collection
------------------------------------------------------------

namespace Collector

variable {self : Collector}

/- The fields that selections select under a key, in order. -/
def fieldsAt
    (self : Collector)
    (key : String)
    (selections : List Selection) : List FieldNode :=
  FieldGroup.fieldsAt key (self.collect selections)

/- A group that is collected has the fields under its key. -/
theorem nodes_eq_fieldsAt
    {selections : List Selection}
    {group : FieldGroup}
    (h : group ∈ self.collect selections) :
    group.nodes = self.fieldsAt group.key selections :=
  (FieldGroup.fieldsAt_of_mem
    (self.nodup_keys_collect selections) h).symm

/- Two parts have the fields of both, some of them once. -/
theorem repeats_fieldsAt_append
    (self : Collector)
    (key : String)
    (selections rest : List Selection) :
    Repeats (self.fieldsAt key (selections ++ rest))
      (self.fieldsAt key selections ++
        self.fieldsAt key rest) := by
  rcases self.exists_collects selections with
    ⟨nodes, _, hNodes, hGroups⟩
  rcases self.exists_collects rest with
    ⟨others, _, hOthers, hRest⟩
  rcases self.exists_collects (selections ++ rest) with
    ⟨all, _, hAll, hBoth⟩
  simp only [fieldsAt, hGroups, hRest, hBoth,
    FieldGroup.fieldsAt_ofNodes, ← List.filter_append]
  exact (hNodes.repeats_append hOthers hAll).filter _

/- So do any number of parts. -/
theorem repeats_fieldsAt_flatMap
    {α : Type}
    (self : Collector)
    (key : String)
    (parts : List α)
    (part : α → List Selection) :
    Repeats (self.fieldsAt key (parts.flatMap part))
      (parts.flatMap fun a => self.fieldsAt key (part a)) := by
  induction parts with
  | nil =>
      have hNone : self.fieldsAt key [] = [] := by
        rcases self.exists_collects [] with
          ⟨_, _, hNodes, hGroups⟩
        cases hNodes
        rw [fieldsAt, hGroups]
        rfl
      simpa [hNone] using Repeats.nil
  | cons a parts ih =>
      rw [List.flatMap_cons, List.flatMap_cons]
      exact (self.repeats_fieldsAt_append key _ _).trans
        (Repeats.append (.refl _) ih)

end Collector

end GraphQL
