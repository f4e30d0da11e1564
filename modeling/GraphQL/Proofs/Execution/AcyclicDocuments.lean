import GraphQL.Proofs.Execution.FieldsByKey
import GraphQL.Proofs.Execution.Termination

/-
  Execution of documents whose fragments do not spread
  themselves.

  Whatever resolvers give, execution goes no deeper than fields
  are nested. A normal form has its fields nested to some
  height, and its execution ends. So does that of all selections
  that have a normal form.

  Key definitions include:
    * `Selection.height`: how deep fields are nested

  Main declarations:
    * `ExecutionContext.executeSelections_ends_of_free`
    * `ExecutionContext.executeSelections_ends`
    * `Request.exists_run_of_acyclic`
-/

------------------------------------------------------------
-- Heights
------------------------------------------------------------

namespace GraphQL

namespace Selection

mutual

/- How deep fields are nested in a selection. -/
def height : Selection → Nat
| .field _ selections => heightAll selections + 1
| .spread _ => 0
| .inline _ selections => heightAll selections

/- How deep fields are nested in selections. -/
def heightAll : List Selection → Nat
| [] => 0
| selection :: rest => max (height selection) (heightAll rest)

end

/- Selections are as high as the highest of them. -/
theorem heightAll_le_iff
    {selections : List Selection}
    {bound : Nat} :
    heightAll selections ≤ bound ↔
      ∀ selection ∈ selections, selection.height ≤ bound := by
  induction selections with
  | nil => simp [heightAll]
  | cons selection rest ih =>
      rw [heightAll, Nat.max_le, ih, List.forall_mem_cons]

/- Parts are as high as the highest of them. -/
theorem heightAll_flatMap_le
    {α : Type}
    {parts : List α}
    {part : α → List Selection}
    {bound : Nat}
    (h : ∀ a ∈ parts, heightAll (part a) ≤ bound) :
    heightAll (parts.flatMap part) ≤ bound := by
  simp only [heightAll_le_iff, List.mem_flatMap] at h ⊢
  rintro selection ⟨a, ha, hSelection⟩
  exact h a ha selection hSelection

end Selection

namespace Collector

variable {self : Collector} {node : FieldNode}

mutual

theorem of_mem_nodesOne :
    (selection : Selection) → node ∈ self.nodesOne selection →
      Selection.heightAll node.selections < selection.height ∧
        Selection.spreadsAll node.selections ⊆ selection.spreads
| .field head selections, h => by
    rw [nodesOne] at h
    split at h
    · rw [List.mem_singleton] at h
      subst h
      exact ⟨Nat.lt_succ_self _, List.Subset.refl _⟩
    · cases h
| .spread head, h => by cases h
| .inline head selections, h => by
    rw [nodesOne] at h
    split at h
    · exact of_mem_nodesAll selections h
    · cases h

/- Fields are lower than the selections that have them. -/
theorem of_mem_nodesAll :
    (selections : List Selection) →
      node ∈ self.nodesAll selections →
      Selection.heightAll node.selections <
          Selection.heightAll selections ∧
        Selection.spreadsAll node.selections ⊆
          Selection.spreadsAll selections
| [], h => by cases h
| selection :: rest, h => by
    rw [nodesAll, List.mem_append] at h
    rw [Selection.heightAll, Selection.spreadsAll]
    rcases h with hFirst | hRest
    · rcases of_mem_nodesOne selection hFirst with
        ⟨hHeight, hSpreads⟩
      exact ⟨lt_max_of_lt_left hHeight,
        List.subset_append_of_subset_left _ hSpreads⟩
    · rcases of_mem_nodesAll rest hRest with
        ⟨hHeight, hSpreads⟩
      exact ⟨lt_max_of_lt_right hHeight,
        List.subset_append_of_subset_right _ hSpreads⟩

end

/- Without spreads, groups have fields of the selections. -/
theorem mem_nodesAll_of_collect
    {selections : List Selection}
    {group : FieldGroup}
    (hFree : Selection.spreadsAll selections = [])
    (hGroup : group ∈ self.collect selections)
    (hNode : node ∈ group.nodes) :
    node ∈ self.nodesAll selections := by
  have hCollect := self.collect_of_free self.document hFree
  rw [nodes_eq_fieldsAt hGroup, fieldsAt, hCollect,
    FieldGroup.fieldsAt_ofNodes] at hNode
  exact (List.mem_filter.1 hNode).1

end Collector

------------------------------------------------------------
-- Selections That End
------------------------------------------------------------

namespace ExecutionContext

open Completion (Ends)

variable {self : ExecutionContext}

/- Values end if the selections of their group end on all. -/
theorem completeValue_ends_of_group
    {execute : Nat → Nat → SelectionExecutor}
    {group : FieldGroup}
    (hHooks : self.hooks.IgnoreNodes)
    (h : ∀ object,
      .defined (.object object) ∈ self.schema.types.types →
        ∀ path value, Ends fun fuel depth =>
          execute fuel depth path object value
            (group.nodes.flatMap FieldNode.selections))
    (info : ResolveInfo)
    (ref : TypeRef)
    (path : List PathSegment)
    (value : Json) :
    Ends fun fuel depth =>
      self.completeValue (execute fuel depth) info group ref path
        value := by
  -- no other selections are executed
  let fixed : Nat → Nat → SelectionExecutor :=
    fun fuel depth path object value _ =>
      execute fuel depth path object value
        (group.nodes.flatMap FieldNode.selections)
  have hFixed : ∀ value, self.EndsAt fixed value :=
    fun value object hObject path _ => h object hObject path value
  have hSame : ∀ fuel depth,
      group.Alike (fixed fuel depth) (execute fuel depth) group :=
    fun _ _ => ⟨rfl, rfl, fun _ _ _ => rfl⟩
  have hEnds := completeValue_ends
    (fun value _ => hFixed value) info group ref path value
    (fun _ => Nat.lt_succ_self _)
  refine hEnds.congr 0 ?_
  intro fuel depth _
  exact self.completeValue_eq hHooks self.document
    (hSame fuel depth) info info.nodes ref path value

/-
  Selections without spreads end, by induction on their height:
  a field has lower ones.
-/
theorem executeSelections_ends_of_free
    (hHooks : self.hooks.IgnoreNodes)
    (hLiterals : ∀ ref input, Coercion.Ends fun fuel =>
      Coercion.literal self.schema self.bindings fuel ref input)
    {object : ObjectType}
    (hObject :
      .defined (.object object) ∈ self.schema.types.types)
    (path : List PathSegment)
    (source : Json)
    {selections : List Selection}
    (hFree : Selection.spreadsAll selections = []) :
    Ends fun fuel depth =>
      (self.withFuel fuel).executeSelections depth path object
        source selections := by
  induction hHeight : Selection.heightAll selections using
    Nat.strongRecOn
    generalizing object path source selections with
  | ind height ih =>
      have hCollect : ∀ fuel,
          (self.withFuel fuel).collect object selections =
            (self.collector object).collect selections :=
        fun _ => rfl
      apply Ends.of_succ
      simp only [executeSelections, hCollect]
      refine Ends.map (Ends.traverse ?_) _
      intro group hGroup
      apply executeGroup_ends
      intro name field _ path
      apply executeField_ends hLiterals
      intro arguments value _
      refine completeValue_ends_of_group hHooks ?_ _ _ _ _
      intro object hObject path value
      have hLower : ∀ node ∈ group.nodes,
          Selection.heightAll node.selections < height ∧
            Selection.spreadsAll node.selections = [] := by
        intro node hNode
        rcases Collector.of_mem_nodesAll selections
            (Collector.mem_nodesAll_of_collect hFree hGroup hNode)
          with ⟨hLess, hSpreads⟩
        rw [hFree] at hSpreads
        exact ⟨hHeight ▸ hLess, List.subset_nil.1 hSpreads⟩
      refine ih _ ?_ hObject path value ?_ rfl
      · rcases Nat.exists_eq_succ_of_ne_zero
            (Nat.ne_zero_of_lt (hLower _ List.mem_cons_self).1)
          with ⟨bound, rfl⟩
        refine Nat.lt_succ_of_le ?_
        refine Selection.heightAll_flatMap_le fun node hNode => ?_
        exact Nat.le_of_lt_succ (hLower node hNode).1
      · exact Selection.spreadsAll_flatMap_eq_nil
          fun node hNode => (hLower node hNode).2

/- If fragments do not spread themselves, selections end. -/
theorem executeSelections_ends
    (hHooks : self.hooks.IgnoreNodes)
    (hLiterals : ∀ ref input, Coercion.Ends fun fuel =>
      Coercion.literal self.schema self.bindings fuel ref input)
    (hAcyclic : self.document.Acyclic)
    {object : ObjectType}
    (hObject :
      .defined (.object object) ∈ self.schema.types.types)
    (path : List PathSegment)
    (source : Json)
    (selections : List Selection) :
    Ends fun fuel depth =>
      (self.withFuel fuel).executeSelections depth path object
        source selections := by
  have hEnds := executeSelections_ends_of_free hHooks hLiterals
    hObject path source
    (self.normaliser.spreadsAll_selections selections)
  refine hEnds.congr 0 ?_
  intro fuel depth _
  exact ((self.withFuel fuel).executeSelections_eq hHooks hAcyclic
    self.document depth path object source
    ((self.withFuel fuel).inlines_selections selections)).symm

end ExecutionContext

/- A request on such a document has one run. -/
theorem Request.exists_run_of_acyclic
    {schema : Schema}
    {hooks : Hooks}
    {document : ExecutableDocument}
    (request : Request)
    (hDefaults : schema.DefaultsAcyclic)
    (hHooks : hooks.IgnoreNodes)
    (hAcyclic : document.Acyclic) :
    ∃ run enough, ∀ fuel, enough ≤ fuel →
      request.execute schema hooks fuel document = some run := by
  have hLiterals := Coercion.literal_ends hDefaults
  apply exists_run_of_ends hLiterals
  intro operation bindings object hObject context
  exact ExecutionContext.executeSelections_ends hHooks
    (hLiterals bindings) hAcyclic hObject [] request.rootValue
    operation.selections

end GraphQL
