import GraphQL.Proofs.Execution.GrownSchemas
import GraphQL.Proofs.Execution.Normalisation

/-
  Documents that avoid names of fields and of types.

  What is collected from selections that avoid names avoids
  them as well. If the names are those that an extended schema
  introduces, the same fields are collected for an object
  before and after it has grown.

  Key definitions include:
    * `Vocabulary`, `Schema.additions`
    * `Selection.Avoids`, `ExecutableDocument.Avoids`

  Main declarations:
    * `Collector.collect_avoids`
    * `Collector.collect_grown`
-/

------------------------------------------------------------
-- Names in Documents
------------------------------------------------------------

namespace GraphQL

/- Names of fields and of types. -/
structure Vocabulary where
  fields : String → Prop
  types : String → Prop

/- The names that an extended schema introduces. -/
def Schema.additions (base extended : Schema) : Vocabulary :=
  ⟨base.NewField extended, base.NewType extended⟩

mutual

/- A selection that uses none of the names. -/
def Selection.Avoids (names : Vocabulary) : Selection → Prop
| .field head selections =>
    ¬names.fields head.name ∧ AvoidsAll names selections
| .spread _ => True
| .inline head selections =>
    (∀ condition ∈ head.condition, ¬names.types condition) ∧
      AvoidsAll names selections

/- Selections that use none of the names. -/
def Selection.AvoidsAll (names : Vocabulary) :
    List Selection → Prop
| [] => True
| selection :: rest =>
    Avoids names selection ∧ AvoidsAll names rest

end

/- A selected field that uses none of the names. -/
structure FieldNode.Avoids
    (names : Vocabulary)
    (node : FieldNode) : Prop where
  field : ¬names.fields node.head.name
  selections : Selection.AvoidsAll names node.selections

structure Fragment.Avoids
    (names : Vocabulary)
    (fragment : Fragment) : Prop where
  condition : ¬names.types fragment.condition
  selections : Selection.AvoidsAll names fragment.selections

structure Operation.Avoids
    (names : Vocabulary)
    (operation : Operation) : Prop where
  definitions : ∀ definition ∈ operation.definitions,
    ¬names.types (Coercion.variableType definition).innermost
  selections : Selection.AvoidsAll names operation.selections

/- A document that uses none of the names. -/
structure ExecutableDocument.Avoids
    (names : Vocabulary)
    (document : ExecutableDocument) : Prop where
  operations : ∀ operation ∈ document.operations,
    operation.Avoids names
  fragments : ∀ fragment ∈ document.fragments,
    fragment.Avoids names

/- Selections avoid names together if each of them does. -/
theorem Selection.avoidsAll_iff
    {names : Vocabulary}
    {selections : List Selection} :
    AvoidsAll names selections ↔
      ∀ selection ∈ selections, Avoids names selection := by
  induction selections with
  | nil => simp [AvoidsAll]
  | cons selection rest ih => simp [AvoidsAll, ih]

/- The selections of all fields of a group avoid names. -/
theorem Selection.avoidsAll_nodes
    {names : Vocabulary}
    {nodes : List FieldNode}
    (h : ∀ node ∈ nodes, node.Avoids names) :
    AvoidsAll names (nodes.flatMap FieldNode.selections) := by
  rw [avoidsAll_iff]
  intro selection hMem
  rcases List.mem_flatMap.1 hMem with ⟨node, hNode, hMem⟩
  exact avoidsAll_iff.1 (h node hNode).selections selection hMem

------------------------------------------------------------
-- Collection
------------------------------------------------------------

namespace FieldGroup

variable {names : Vocabulary}

/- The fields of groups use none of the names. -/
def AvoidAll (names : Vocabulary) (groups : List FieldGroup) :
    Prop :=
  ∀ group ∈ groups, ∀ node ∈ group.nodes, node.Avoids names

/- A field that is added is in its group, or in a new one. -/
theorem AvoidAll.add
    {key : String}
    {node : FieldNode}
    {groups : List FieldGroup}
    (hNode : node.Avoids names)
    (hGroups : AvoidAll names groups) :
    AvoidAll names (FieldGroup.add key node groups) := by
  induction groups with
  | nil => simpa [AvoidAll, FieldGroup.add, nodes] using hNode
  | cons group rest ih =>
      rcases List.forall_mem_cons.1 hGroups with
        ⟨hGroup, hRest⟩
      rw [FieldGroup.add]
      split
      · refine List.forall_mem_cons.2 ⟨?_, hRest⟩
        intro other hOther
        have hMem : other ∈ group.nodes ++ [node] := by
          simpa [nodes] using hOther
        rcases List.mem_append.1 hMem with hBefore | hLast
        · exact hGroup other hBefore
        · rwa [List.mem_singleton.1 hLast]
      · exact List.forall_mem_cons.2 ⟨hGroup, ih hRest⟩

end FieldGroup

namespace Schema.Grows

variable {base extended : Schema}

/- A fragment of a former type applies to the same objects. -/
theorem fragmentApplies_eq
    (hGrows : base.Grows extended)
    {type next : ObjectType}
    (hType : next.name = type.name)
    {condition : String}
    (hCondition : ¬base.NewType extended condition) :
    extended.fragmentApplies next condition =
      base.fragmentApplies type condition := by
  have hFound := hGrows.rel_lookup hCondition
  unfold fragmentApplies
  cases hBefore : base.lookup condition with
  | none =>
      rw [(eq_none_iff_of_rel hFound).1 hBefore]
  | some found =>
      rcases hGrows.exists_of_lookup hBefore with
        ⟨found', hAfter, hFound⟩
      have hName : found.name = condition :=
        TypeGraph.name_of_lookup hBefore
      have hLookup : base.lookup found.name = some found := by
        rw [hName, hBefore]
      have hPossible :=
        hGrows.isPossible_eq hLookup hFound hType
      rw [hAfter]
      cases hFound with
      | builtin scalar => exact hPossible
      | defined hFound =>
          cases hFound with
          | object _ =>
              simp only [hType]
          | _ => exact hPossible

end Schema.Grows

namespace Collector

variable {names : Vocabulary}
variable {enter enter' : Fragment → Collected → Collected}

mutual

theorem collectOne_avoids
    (self : Collector)
    (hFragments : ∀ fragment ∈ self.document.fragments,
      fragment.Avoids names)
    (hEnter : ∀ fragment, fragment.Avoids names → ∀ done,
      FieldGroup.AvoidAll names done.groups →
      FieldGroup.AvoidAll names (enter fragment done).groups) :
    (selection : Selection) → selection.Avoids names →
      (done : Collected) →
      FieldGroup.AvoidAll names done.groups →
      FieldGroup.AvoidAll names
        (self.collectOne enter selection done).groups
| .field head selections, hSelection, done, hDone => by
    rw [collectOne]
    split
    · exact hDone.add ⟨hSelection.1, hSelection.2⟩
    · exact hDone
| .spread head, _, done, hDone => by
    rw [collectOne]
    split
    · exact hDone
    · split
      · exact hDone
      · next fragment hFound =>
          split
          · rcases ExecutableDocument.of_fragment?_eq_some
              hFound with ⟨hMem, -⟩
            exact hEnter fragment (hFragments fragment hMem) _
              hDone
          · exact hDone
| .inline head selections, hSelection, done, hDone => by
    have hAll := collectAll_avoids self hFragments hEnter
      selections hSelection.2 done hDone
    rw [collectOne]
    split <;> split
    · exact hAll
    · exact hDone
    · exact hAll
    · exact hDone

theorem collectAll_avoids
    (self : Collector)
    (hFragments : ∀ fragment ∈ self.document.fragments,
      fragment.Avoids names)
    (hEnter : ∀ fragment, fragment.Avoids names → ∀ done,
      FieldGroup.AvoidAll names done.groups →
      FieldGroup.AvoidAll names (enter fragment done).groups) :
    (selections : List Selection) →
      Selection.AvoidsAll names selections →
      (done : Collected) →
      FieldGroup.AvoidAll names done.groups →
      FieldGroup.AvoidAll names
        (self.collectAll enter selections done).groups
| [], _, _, hDone => hDone
| selection :: rest, hSelections, done, hDone => by
    rw [collectAll]
    exact collectAll_avoids self hFragments hEnter rest
      hSelections.2 _
      (collectOne_avoids self hFragments hEnter selection
        hSelections.1 done hDone)

end

/- What is collected uses none of the names. -/
theorem collect_avoids
    (self : Collector)
    (hFragments : ∀ fragment ∈ self.document.fragments,
      fragment.Avoids names)
    {selections : List Selection}
    (h : Selection.AvoidsAll names selections) :
    FieldGroup.AvoidAll names (self.collect selections) := by
  have hWithin : ∀ depth selections,
      Selection.AvoidsAll names selections → ∀ done,
      FieldGroup.AvoidAll names done.groups →
      FieldGroup.AvoidAll names
        (self.collectWithin depth selections done).groups := by
    intro depth
    induction depth with
    | zero =>
        exact self.collectAll_avoids hFragments
          fun _ _ _ hDone => hDone
    | succ depth ih =>
        exact self.collectAll_avoids hFragments
          fun fragment hFragment =>
            ih fragment.selections hFragment.selections
  exact hWithin _ selections h ⟨[], []⟩ nofun

section

variable {extended : Schema} {next : ObjectType}

mutual

theorem collectOne_grown
    (self : Collector)
    (hApplies : ∀ condition, ¬names.types condition →
      extended.fragmentApplies next condition =
        self.schema.fragmentApplies self.object condition)
    (hFragments : ∀ fragment ∈ self.document.fragments,
      fragment.Avoids names)
    (hEnter : ∀ fragment, fragment.Avoids names →
      enter' fragment = enter fragment) :
    (selection : Selection) → selection.Avoids names →
      (done : Collected) →
      collectOne
          { self with schema := extended, object := next }
          enter' selection done =
        self.collectOne enter selection done
| .field head selections, _, done => by
    rw [collectOne, collectOne]
| .spread head, _, done => by
    rw [collectOne, collectOne]
    cases hFound : self.document.fragment? head.name with
    | none => rfl
    | some fragment =>
        rcases ExecutableDocument.of_fragment?_eq_some hFound
          with ⟨hMem, -⟩
        have hFragment := hFragments fragment hMem
        simp only [hApplies _ hFragment.condition,
          hEnter _ hFragment]
| .inline head selections, hSelection, done => by
    have hAll := collectAll_grown self hApplies hFragments hEnter
      selections hSelection.2 done
    rw [collectOne, collectOne, hAll]
    cases hCondition : head.condition with
    | none => rfl
    | some condition =>
        simp only [hApplies _ (hSelection.1 _ hCondition)]

theorem collectAll_grown
    (self : Collector)
    (hApplies : ∀ condition, ¬names.types condition →
      extended.fragmentApplies next condition =
        self.schema.fragmentApplies self.object condition)
    (hFragments : ∀ fragment ∈ self.document.fragments,
      fragment.Avoids names)
    (hEnter : ∀ fragment, fragment.Avoids names →
      enter' fragment = enter fragment) :
    (selections : List Selection) →
      Selection.AvoidsAll names selections →
      (done : Collected) →
      collectAll
          { self with schema := extended, object := next }
          enter' selections done =
        self.collectAll enter selections done
| [], _, _ => rfl
| selection :: rest, hSelections, done => by
    rw [collectAll, collectAll,
      collectOne_grown self hApplies hFragments hEnter selection
        hSelections.1 done,
      collectAll_grown self hApplies hFragments hEnter rest
        hSelections.2]

end

/- The same fields of an object that has grown are selected. -/
theorem collect_grown
    (self : Collector)
    (hApplies : ∀ condition, ¬names.types condition →
      extended.fragmentApplies next condition =
        self.schema.fragmentApplies self.object condition)
    (hFragments : ∀ fragment ∈ self.document.fragments,
      fragment.Avoids names)
    {selections : List Selection}
    (h : Selection.AvoidsAll names selections) :
    collect { self with schema := extended, object := next }
        selections =
      self.collect selections := by
  have hWithin : ∀ depth selections,
      Selection.AvoidsAll names selections → ∀ done,
      collectWithin
          { self with schema := extended, object := next } depth
          selections done =
        self.collectWithin depth selections done := by
    intro depth
    induction depth with
    | zero =>
        exact self.collectAll_grown hApplies hFragments
          fun _ _ => rfl
    | succ depth ih =>
        exact self.collectAll_grown hApplies hFragments
          fun fragment hFragment => funext <|
            ih fragment.selections hFragment.selections
  simp only [collect, hWithin _ selections h]

end

end Collector

end GraphQL
