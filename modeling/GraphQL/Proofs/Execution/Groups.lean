import GraphQL.Execution.Collection

/-
  What collection keeps: the groups of collected fields have
  distinct keys, in the order in which they were first met.

  Main declarations:
    * `FieldGroup.keys_add`
    * `Collector.collectWithin_keeps`
    * `Collector.nodup_keys_collect`
-/

------------------------------------------------------------
-- Groups
------------------------------------------------------------

namespace GraphQL

namespace FieldGroup

/- A field adds its key last, unless it is there already. -/
theorem keys_add
    (key : String)
    (node : FieldNode)
    (groups : List FieldGroup) :
    (add key node groups).map FieldGroup.key =
      if key ∈ groups.map FieldGroup.key then
        groups.map FieldGroup.key
      else
        groups.map FieldGroup.key ++ [key] := by
  induction groups with
  | nil => simp [add]
  | cons group rest ih =>
      by_cases hKey : group.key = key
      · simp [add, hKey]
      · have hNe : key ≠ group.key := fun h => hKey h.symm
        by_cases hMem : key ∈ rest.map FieldGroup.key
        · simp [add, hKey, ih, hMem]
        · simp [add, hKey, hNe, ih, hMem]

/- Adding a field keeps keys distinct. -/
theorem nodup_keys_add
    {groups : List FieldGroup}
    (key : String)
    (node : FieldNode)
    (h : (groups.map FieldGroup.key).Nodup) :
    ((add key node groups).map FieldGroup.key).Nodup := by
  rw [keys_add]
  split
  · exact h
  · next hMem =>
      rw [List.nodup_append]
      refine ⟨h, by simp, ?_⟩
      intro name hName last hLast hEq
      simp only [List.mem_singleton] at hLast
      exact hMem (hLast ▸ hEq ▸ hName)

end FieldGroup

------------------------------------------------------------
-- Collection
------------------------------------------------------------

namespace Collector

/- A property that collecting a field or a name keeps. -/
structure Keeps (Property : Collected → Prop) : Prop where
  addField {done : Collected} {node : FieldNode} :
    Property done → Property (done.addField node)
  visit {done : Collected} {name : String} :
    Property done →
    Property { done with visited := name :: done.visited }

variable {Property : Collected → Prop}
variable {enter : Fragment → Collected → Collected}

mutual

theorem collectOne_keeps
    (self : Collector)
    (hKeeps : Keeps Property)
    (hEnter : ∀ fragment done,
      Property done → Property (enter fragment done)) :
    (selection : Selection) → (done : Collected) →
      Property done → Property (self.collectOne enter selection done)
| .field head selections, done, h => by
    rw [collectOne]
    split
    · exact hKeeps.addField h
    · exact h
| .spread head, done, h => by
    rw [collectOne]
    split
    · exact h
    · split
      · exact hKeeps.visit h
      · split
        · exact hEnter _ _ (hKeeps.visit h)
        · exact hKeeps.visit h
| .inline head selections, done, h => by
    have hAll :=
      collectAll_keeps self hKeeps hEnter selections done h
    rw [collectOne]
    split <;> split
    · exact hAll
    · exact h
    · exact hAll
    · exact h

theorem collectAll_keeps
    (self : Collector)
    (hKeeps : Keeps Property)
    (hEnter : ∀ fragment done,
      Property done → Property (enter fragment done)) :
    (selections : List Selection) → (done : Collected) →
      Property done →
        Property (self.collectAll enter selections done)
| [], _, h => h
| selection :: rest, done, h => by
    rw [collectAll]
    exact collectAll_keeps self hKeeps hEnter rest _
      (collectOne_keeps self hKeeps hEnter selection done h)

end

/- What fields and names keep is kept to any depth. -/
theorem collectWithin_keeps
    (self : Collector)
    (hKeeps : Keeps Property)
    (depth : Nat)
    (selections : List Selection)
    (done : Collected)
    (h : Property done) :
    Property (self.collectWithin depth selections done) := by
  induction depth generalizing selections done with
  | zero =>
      exact collectAll_keeps self hKeeps (fun _ _ h => h)
        selections done h
  | succ depth ih =>
      exact collectAll_keeps self hKeeps
        (fun fragment done h => ih fragment.selections done h)
        selections done h

/- Distinct fields of a selection set have distinct keys. -/
theorem nodup_keys_collect
    (self : Collector)
    (selections : List Selection) :
    ((self.collect selections).map FieldGroup.key).Nodup := by
  have hKeeps :
      Keeps fun done =>
        (done.groups.map FieldGroup.key).Nodup := by
    constructor
    · intro done node h
      exact FieldGroup.nodup_keys_add _ node h
    · intro done name h
      exact h
  exact collectWithin_keeps self hKeeps _ selections ⟨[], []⟩
    List.nodup_nil

end Collector

end GraphQL
