import GraphQL.Proofs.Execution.AcyclicDocuments
import GraphQL.Proofs.Execution.EndlessInputs
import GraphQL.Proofs.Execution.MoreFuel
import GraphQL.Proofs.Execution.Rearranging
import GraphQL.Proofs.Execution.Reordered

/-
  The order of siblings: a document and a rearrangement of it
  have the same data, up to the order of members.

  From selections that are alike the same groups of fields are
  collected, in some order. They are executed by themselves, so
  their values do not depend on the order, and if one of them
  passes an error on, their object has no value, whichever of
  them are executed before. Nor does it matter which error is
  passed on: what takes null in the end is the same.

  Key definitions include:
    * `FieldGroup.Agrees`
    * `Request.Coerces`

  Main declarations:
    * `ExecutionContext.executeGroup_agrees`
    * `ExecutionContext.executeSelections_agrees`
    * `Request.data_reordered`
-/

------------------------------------------------------------
-- Groups
------------------------------------------------------------

namespace GraphQL

open Completion (Agrees)

/-
  Groups of one key, with first fields that differ in their
  places, whose selections agree for every object.
-/
structure FieldGroup.Agrees
    (schema : Schema)
    (execute execute' : SelectionExecutor)
    (group other : FieldGroup) : Prop where
  key : other.key = group.key
  name : other.first.head.name = group.first.head.name
  arguments :
    other.first.head.arguments = group.first.head.arguments
  selections : ∀ object,
    .defined (.object object) ∈ schema.types.types →
      ∀ path value,
        Completion.Agrees Json.ReorderedMembers
          (execute path object value
            (group.nodes.flatMap FieldNode.selections))
          (execute' path object value
            (other.nodes.flatMap FieldNode.selections))

/- Groups of twins agree if the selections of twins do. -/
theorem Rearrangement.TwinGroups.agrees
    {rearrangement : Rearrangement}
    {schema : Schema}
    {execute execute' : SelectionExecutor}
    {group group' : FieldGroup}
    (h : rearrangement.TwinGroups group group')
    (hSelections : ∀ object,
      .defined (.object object) ∈ schema.types.types →
        ∀ path value,
          Agrees Json.ReorderedMembers
            (execute path object value
              (group.nodes.flatMap FieldNode.selections))
            (execute' path object value
              (group'.nodes.flatMap FieldNode.selections))) :
    group.Agrees schema execute execute' group' := by
  have hHead := rearrangement.heads _ _ h.first
  refine ⟨h.key, ?_, ?_, hSelections⟩
  · simpa using congrArg FieldHead.name hHead
  · simpa using congrArg FieldHead.arguments hHead

namespace ExecutionContext

variable {execute execute' : SelectionExecutor}
variable {group other : FieldGroup}

/- Objects have the same members in some order. -/
theorem completeObject_agrees
    {schema : Schema}
    (h : group.Agrees schema execute execute' other)
    {object : ObjectType}
    (hObject : .defined (.object object) ∈ schema.types.types)
    (path : List PathSegment)
    (value : Json) :
    Agrees Json.Reordered
      (completeObject execute group path object value)
      (completeObject execute' other path object value) :=
  (h.selections object hObject path value).mapValue
    fun _ _ hMembers => hMembers.object

/- Values of named types agree. -/
theorem completeNamed_agrees
    (self : ExecutionContext)
    (hHooks : self.hooks.IgnoreNodes)
    (document : ExecutableDocument)
    (h : group.Agrees self.schema execute execute' other)
    (info : ResolveInfo)
    (nodes : List FieldNode)
    (path : List PathSegment)
    (name : String)
    (value : Json) :
    Agrees Json.Reordered
      (self.completeNamed execute info group path name value)
      (completeNamed { self with document := document } execute'
        { info with nodes := nodes } other path name value) := by
  simp only [completeNamed, hHooks.isTypeOf,
    AbstractType.resolve_nodes hHooks]
  split
  · exact .fail _ _
  · exact .fail _ _
  · next object hLookup =>
      have hObject := completeObject_agrees h
        (TypeGraph.mem_of_lookup hLookup) path value
      exact hObject.ite (.fail _ _)
  · next type _ =>
      refine Agrees.ite (Agrees.noting ?_ _ _) ?_
      · split
        · next object hResolve =>
            exact completeObject_agrees h
              (Schema.mem_types_of_mem_possibleTypes
                (mem_possibleTypes_of_resolve hResolve))
              path value
        · exact .fail _ _
      · split
        · exact .done (.refl _)
        · exact .fail _ _

/- Values agree, layer by layer. -/
theorem completeValue_agrees
    (self : ExecutionContext)
    (hHooks : self.hooks.IgnoreNodes)
    (document : ExecutableDocument)
    (h : group.Agrees self.schema execute execute' other)
    (info : ResolveInfo)
    (nodes : List FieldNode)
    (ref : TypeRef)
    (path : List PathSegment)
    (value : Json) :
    Agrees Json.Reordered
      (self.completeValue execute info group ref path value)
      (completeValue { self with document := document } execute'
        { info with nodes := nodes } other ref path value) := by
  induction ref generalizing path value with
  | named name nullable location =>
      simp only [completeValue]
      split
      · exact .ite (.done (.refl _)) (.fail _ _)
      · exact self.completeNamed_agrees hHooks document h info
          nodes path name value
  | list inner nullable location ih =>
      simp only [completeValue]
      split
      · exact .ite (.done (.refl _)) (.fail _ _)
      · next items =>
          refine Agrees.mapValue (Agrees.traverse ?_)
            fun _ _ hItems => .array hItems
          refine List.forall₂_same.2 fun item _ => ?_
          exact (ih _ item.1).nullify inner
      · exact .fail _ _

/- Fields of groups that agree have values that agree. -/
theorem executeField_agrees
    (self : ExecutionContext)
    (hHooks : self.hooks.IgnoreNodes)
    (document : ExecutableDocument)
    (h : group.Agrees self.schema execute execute' other)
    (path : List PathSegment)
    (parent : ObjectType)
    (source : Json)
    (field : OutputField) :
    Agrees Json.Reordered
      (self.executeField execute path parent source field group)
      (executeField { self with document := document } execute'
        path parent source field other) := by
  have hResolve := self.resolve_info_eq hHooks document path
    parent field group other source
  simp only [executeField, hResolve, h.arguments]
  refine Agrees.nullify ?_ field.type
  split
  · exact .none
  · exact .fail _ _
  · refine Agrees.noting ?_ _ _
    split
    · exact .fail _ _
    · next value _ =>
        exact self.completeValue_agrees hHooks document h
          (self.info path parent field group) other.nodes
          field.type path value

/- Groups that agree have one entry, or both have none. -/
theorem executeGroup_agrees
    (self : ExecutionContext)
    (hHooks : self.hooks.IgnoreNodes)
    (document : ExecutableDocument)
    (h : group.Agrees self.schema execute execute' other)
    (path : List PathSegment)
    (parent : ObjectType)
    (source : Json) :
    Agrees (Option.Rel Json.ReorderedMember)
      (self.executeGroup execute path parent source group)
      (executeGroup { self with document := document } execute'
        path parent source other) := by
  simp only [executeGroup, h.name, h.key]
  refine Agrees.ite (.done (.some ⟨rfl, .refl _⟩)) ?_
  split
  · exact .done .none
  · next field _ =>
      have hField := self.executeField_agrees hHooks document h
        (path ++ [.key group.key]) parent source field
      exact hField.mapValue fun _ _ hSame => .some ⟨rfl, hSame⟩

------------------------------------------------------------
-- Selections
------------------------------------------------------------

/-
  Selections that are alike have the same members in some
  order, by induction on the fuel: each group has twins, and
  the selections of twins are alike.
-/
theorem executeSelections_agrees
    (self : ExecutionContext)
    (hHooks : self.hooks.IgnoreNodes)
    (rearrangement : Rearrangement)
    (hDocument : self.document = rearrangement.before)
    (hKeeps :
      rearrangement.KeepsOrder self.schema self.bindings)
    (fuel : Nat)
    {object : ObjectType}
    (hObject :
      .defined (.object object) ∈ self.schema.types.types)
    (path : List PathSegment)
    (source : Json)
    {selections selections' : List Selection}
    (h : rearrangement.Alike self.schema self.bindings selections
      selections') :
    Agrees Json.ReorderedMembers
      (self.executeSelections fuel path object source selections)
      (executeSelections
        { self with document := rearrangement.after } fuel path
        object source selections') := by
  induction fuel generalizing object path source selections
    selections' with
  | zero => exact .none
  | succ fuel ih =>
      rcases h.exists_groups hObject with
        ⟨arranged, hPerm, hGroups⟩
      have hCollect : self.collect object selections =
          (rearrangement.collector self.schema self.bindings
            object).collect selections := by
        rw [collect, hDocument]
        rfl
      rw [executeSelections, executeSelections, hCollect]
      have hEntries := hGroups.imp fun group group' hTwins =>
        self.executeGroup_agrees hHooks rearrangement.after
          (hTwins.agrees fun object hObject path value =>
            ih hObject path value (hTwins.nodes.alike hKeeps))
          path object source
      refine (Agrees.traverse_of_perm hPerm hEntries).mapValue ?_
      rintro entries entries' ⟨moved, hMoved, hSame⟩
      exact ⟨moved.filterMap id, hMoved.filterMap id,
        List.rel_filterMap (fun _ _ hEntry => hEntry) hSame⟩

end ExecutionContext

------------------------------------------------------------
-- Requests
------------------------------------------------------------

namespace Request

variable {request : Request} {schema : Schema} {fuel : Nat}
variable {document document' : ExecutableDocument}

/- The variables of the operation are coerced to these. -/
def Coerces
    (request : Request)
    (schema : Schema)
    (document : ExecutableDocument)
    (bindings : Entries Json) : Prop :=
  ∃ fuel operation,
    request.select document.operations = .ok operation ∧
      (Coercion.bindings schema fuel request.bindings
        operation.definitions).run = some (.ok bindings)

/- Of paired operations, paired ones are selected. -/
theorem exists_select_of_forall₂
    {Pair : Operation → Operation → Prop}
    {operations operations' : List Operation}
    (hPairs : List.Forall₂ Pair operations operations')
    (hAkin : ∀ operation operation', Pair operation operation' →
      operation.Akin operation')
    {operation : Operation}
    (h : request.select operations = .ok operation) :
    ∃ operation', request.select operations' = .ok operation' ∧
      Pair operation operation' := by
  unfold select at h ⊢
  split at h
  · next name _ =>
      have hFound : Option.Rel Pair
          (operations.find? fun operation =>
            operation.name == some name)
          (operations'.find? fun operation =>
            operation.name == some name) := by
        refine rel_find?_of_same ?_ hPairs
        intro operation operation' hPair
        rw [(hAkin _ _ hPair).name]
      dsimp only at h ⊢
      split at h
      · next operation hOperation =>
          cases h
          rw [hOperation] at hFound
          generalize operations'.find? _ = found' at hFound ⊢
          cases hFound with
          | some hPair => exact ⟨_, rfl, hPair⟩
      · cases h
  · cases hPairs with
    | nil => cases h
    | cons hPair hRest =>
        cases hRest with
        | nil =>
            cases h
            exact ⟨_, rfl, hPair⟩
        | cons _ _ => cases h

/-
  Where an operation of one document starts, the paired one of
  the other starts with the same variables and the same root.
-/
theorem Start.exists_partner
    {Pair : Operation → Operation → Prop}
    (hPairs :
      List.Forall₂ Pair document.operations document'.operations)
    (hAkin : ∀ operation operation', Pair operation operation' →
      operation.Akin operation')
    (start : Start request schema fuel document) :
    ∃ start' : Start request schema fuel document',
      Pair start.operation start'.operation ∧
        start'.bindings = start.bindings ∧
        start'.root = start.root := by
  rcases exists_select_of_forall₂ hPairs hAkin start.select_eq
    with ⟨operation', hSelect, hPair⟩
  have hSame := hAkin _ _ hPair
  have hBindings := start.bindings_eq
  rw [← hSame.definitions] at hBindings
  have hRoot : rootType schema operation' = .ok start.root := by
    have hRoot := start.root_eq
    unfold rootType at hRoot ⊢
    rw [hSame.kind]
    split at hRoot
    · cases hRoot
    · split at hRoot
      · simpa using hRoot
      · cases hRoot
  exact
    ⟨⟨operation', start.bindings, start.root, hSelect, hBindings,
      hRoot⟩, hPair, rfl, rfl⟩

/- A request that starts is not refused. -/
theorem Start.exists_outcome
    {hooks : Hooks}
    {answer : Run}
    (start : Start request schema fuel document)
    (h :
      request.execute schema hooks fuel document = some answer) :
    ∃ outcome,
      (start.context hooks).executeSelections fuel [] start.root
          request.rootValue start.operation.selections =
        some outcome ∧
      answer = run start.operation outcome := by
  have hStart : request.execute schema hooks fuel document =
      ((start.context hooks).executeSelections fuel [] start.root
        request.rootValue start.operation.selections).map
          (run start.operation) := by
    simp only [execute, start.select_eq, start.bindings_eq,
      start.root_eq, Option.bind_eq_bind, Option.bind_some,
      Option.map_eq_bind]
    rfl
  rw [hStart] at h
  rcases Option.map_eq_some_iff.1 h with ⟨outcome, hOutcome, hRun⟩
  exact ⟨outcome, hOutcome, hRun.symm⟩

/- Members in another order are data up to their order. -/
theorem run_reordered
    {outcome outcome' : Completed (List (String × Json))}
    (h : Option.Rel Json.ReorderedMembers outcome.value
      outcome'.value)
    (operation operation' : Operation) :
    Option.Rel Json.Reordered
      (run operation outcome).response.data
      (run operation' outcome').response.data := by
  rcases outcome with ⟨value?, errors, notices⟩
  rcases outcome' with ⟨value?', errors', notices'⟩
  cases h with
  | none => exact .some (.refl _)
  | some hMembers => exact .some hMembers.object

/- Operations that start together have reordered data. -/
theorem outcomes_reordered
    {hooks : Hooks}
    (hHooks : hooks.IgnoreNodes)
    (rearrangement : Rearrangement)
    (start : Start request schema fuel rearrangement.before)
    (start' : Start request schema fuel rearrangement.after)
    (hKeeps : rearrangement.KeepsOrder schema start.bindings)
    (hAkin : start.operation.Akin start'.operation)
    (hOrder : rearrangement.InOrder schema start.bindings
      start.operation.selections start'.operation.selections)
    (hBindings : start'.bindings = start.bindings)
    (hRoot : start'.root = start.root) :
    Agrees Json.ReorderedMembers
      ((start.context hooks).executeSelections fuel [] start.root
        request.rootValue start.operation.selections)
      ((start'.context hooks).executeSelections fuel []
        start'.root request.rootValue
        start'.operation.selections) := by
  have hContext : start'.context hooks =
      { start.context hooks with
        document := rearrangement.after } := by
    simp only [Start.context, context, hAkin.name, hBindings]
  rw [hContext, hRoot]
  exact (start.context hooks).executeSelections_agrees hHooks
    rearrangement rfl hKeeps fuel
    (mem_types_of_rootType start.root_eq) [] request.rootValue
    hOrder.alike

/- Pairs of two kinds are pairs of both. -/
theorem forall₂_and
    {α β : Type}
    {First Second : α → β → Prop}
    {items : List α}
    {items' : List β}
    (h : List.Forall₂ First items items')
    (h' : List.Forall₂ Second items items') :
    List.Forall₂ (fun a b => First a b ∧ Second a b) items
      items' := by
  induction h with
  | nil => exact .nil
  | cons hFirst _ ih =>
      cases h' with
      | cons hSecond hRest =>
          exact .cons ⟨hFirst, hSecond⟩ (ih hRest)

/-
  A request that comes to an end both on a document and on one
  with the selections of selection sets in another order has the
  same data on both, up to the order of members at every level,
  if for every object type the fields under each key stay in
  order, and hooks do not look at the fields of a group.

  If no fragment spreads itself, and no default leads back to
  itself, then the request comes to an end on both, and so both
  have such data, or it is refused on both.
-/
theorem data_reordered
    (request : Request)
    (schema : Schema)
    (hooks : Hooks)
    (rearrangement : Rearrangement)
    (hHooks : hooks.IgnoreNodes)
    (hKeeps : ∀ bindings,
      request.Coerces schema rearrangement.before bindings →
        rearrangement.KeepsOrder schema bindings) :
    (∀ fuel fuel' run run',
      request.execute schema hooks fuel rearrangement.before =
          some run →
        request.execute schema hooks fuel' rearrangement.after =
            some run' →
          Option.Rel Json.Reordered run.response.data
            run'.response.data) ∧
      (rearrangement.before.Acyclic → schema.DefaultsAcyclic →
        ∃ run run' enough, ∀ fuel, enough ≤ fuel →
          request.execute schema hooks fuel
              rearrangement.before = some run ∧
            request.execute schema hooks fuel
              rearrangement.after = some run') := by
  have hOperations := rearrangement.operations_rearranged
  refine ⟨?_, ?_⟩
  · intro fuel fuel' run run' hRun hRun'
    -- Both come to the same with the fuel of either.
    replace hRun := execute_of_le (Nat.le_max_left fuel fuel') hRun
    replace hRun' :=
      execute_of_le (Nat.le_max_right fuel fuel') hRun'
    rcases refusal_or_start hRun with
      ⟨errors, rfl⟩ | ⟨start, outcome, hOutcome, rfl⟩
    · rcases refusal_or_start hRun' with
        ⟨errors', rfl⟩ | ⟨start', _, _, _⟩
      · exact .none
      · rcases start'.exists_partner hOperations.flip
            (fun _ _ hPair => hPair.akin.symm) with ⟨start, -⟩
        rcases start.exists_outcome hRun with ⟨_, _, hRefusal⟩
        cases congrArg (fun run => run.response.data) hRefusal
    · have hOrder :=
        hKeeps start.bindings
          ⟨_, start.operation, start.select_eq,
            start.bindings_eq⟩
      rcases start.exists_partner
          (forall₂_and hOperations hOrder.operations)
          (fun _ _ hPair => hPair.1.akin) with
        ⟨start', hPair, hBindings, hRoot⟩
      rcases start'.exists_outcome hRun' with
        ⟨outcome', hOutcome', rfl⟩
      refine run_reordered ?_ _ _
      exact outcomes_reordered hHooks rearrangement start start'
        hOrder hPair.1.akin hPair.2 hBindings hRoot _ _
        ⟨_, Completion.gives_of_eq_some hOutcome⟩
        ⟨_, Completion.gives_of_eq_some hOutcome'⟩
  · intro hAcyclic hDefaults
    rcases request.exists_run_of_acyclic hDefaults hHooks
      hAcyclic with ⟨run, enough, hRun⟩
    rcases request.exists_run_of_acyclic hDefaults hHooks
      (rearrangement.acyclic_after hAcyclic) with
      ⟨run', more, hRun'⟩
    refine ⟨run, run', max enough more, ?_⟩
    intro fuel hFuel
    rw [Nat.max_le] at hFuel
    exact ⟨hRun fuel hFuel.1, hRun' fuel hFuel.2⟩

end Request

------------------------------------------------------------
-- A Catalogue
------------------------------------------------------------

namespace Catalogue

/- A field without arguments. -/
def node (name : String) (selections : List Selection) :
    FieldNode :=
  ⟨⟨position, none, name, [], []⟩, selections⟩

/- What to show of all items. -/
def facts : List Selection :=
  [select "__typename" [], select "title" []]

/- What to show of books; sequels are shown once again. -/
def volumes (sequel : List Selection) : List Selection :=
  [ within "Book" [select "pages" [], select "sequel" sequel],
    spread "Again"]

/- The items, and what is shown again of sequels. -/
def shelved (items again : List Selection) : ExecutableDocument :=
  [ .operation
      { operation with selections := [select "items" items] },
    .fragment
      ⟨position, "Again", "Book", [], [select "sequel" again]⟩]

def first : List Selection :=
  [select "title" [], select "__typename" []]

def first' : List Selection :=
  [select "__typename" [], select "title" []]

def again : List Selection :=
  [select "pages" [], select "title" []]

def again' : List Selection :=
  [select "title" [], select "pages" []]

/- The items with books first, and sequels the other way. -/
inductive Reshelved : FieldNode → FieldNode → Prop where
  | leaf (name : String) : Reshelved (node name []) (node name [])
  | first :
      Reshelved (node "sequel" first) (node "sequel" first')
  | again :
      Reshelved (node "sequel" again) (node "sequel" again')
  | items :
      Reshelved (node "items" (facts ++ volumes first))
        (node "items" (volumes first' ++ facts))

theorem moves_leaf (name : String) :
    Selection.Moves Reshelved (select name []) (select name []) :=
  .field (.leaf name)

/- The catalogue on the shelf in another order. -/
def reshelved : Rearrangement where
  before := shelved (facts ++ volumes first) again
  after := shelved (volumes first' ++ facts) again'
  Moved := Reshelved
  definitions := by
    refine .cons (.operation ⟨⟨rfl, rfl, rfl⟩, ?_⟩)
      (.cons (.fragment ⟨rfl, rfl, ?_⟩) .nil)
    · exact ⟨_, .refl _, .cons (.field .items) .nil⟩
    · exact ⟨_, .refl _, .cons (.field .again) .nil⟩
  heads := by
    rintro _ _ (_ | _ | _ | _) <;> rfl
  selections := by
    intro _ _ h
    cases h with
    | leaf name => exact ⟨[], .refl _, .nil⟩
    | first =>
        exact ⟨first', .swap _ _ _,
          .cons (moves_leaf _) (.cons (moves_leaf _) .nil)⟩
    | again =>
        exact ⟨again', .swap _ _ _,
          .cons (moves_leaf _) (.cons (moves_leaf _) .nil)⟩
    | items =>
        refine ⟨volumes first ++ facts, List.perm_append_comm,
          .cons (.inline rfl (.refl _) ?_)
            (.cons (.spread rfl)
              (.cons (moves_leaf _)
                (.cons (moves_leaf _) .nil)))⟩
        exact .cons (moves_leaf _) (.cons (.field .first) .nil)

/- The group of a field that is selected once. -/
def once (name : String) (selections : List Selection) :
    FieldGroup :=
  ⟨name, node name selections, []⟩

/- The group of the sequels. -/
def both (sequel again : List Selection) : FieldGroup :=
  ⟨"sequel", node "sequel" sequel, [node "sequel" again]⟩

variable (bindings : Entries Json)

theorem inOrder_leaf :
    reshelved.InOrder schema bindings [] [] :=
  Rearrangement.inOrder_of_groups fun _ _ => ⟨[], .refl _, .nil⟩

theorem inOrder_first :
    reshelved.InOrder schema bindings first first' :=
  Rearrangement.inOrder_of_groups fun _ _ =>
    ⟨[once "title" [], once "__typename" []], .swap _ _ _,
      .cons ⟨rfl, .cons (.leaf _) .nil⟩
        (.cons ⟨rfl, .cons (.leaf _) .nil⟩ .nil)⟩

theorem inOrder_again :
    reshelved.InOrder schema bindings again again' :=
  Rearrangement.inOrder_of_groups fun _ _ =>
    ⟨[once "pages" [], once "title" []], .swap _ _ _,
      .cons ⟨rfl, .cons (.leaf _) .nil⟩
        (.cons ⟨rfl, .cons (.leaf _) .nil⟩ .nil)⟩

/- Of books the sequels stay in order, of queries there are none. -/
theorem inOrder_items :
    reshelved.InOrder schema bindings (facts ++ volumes first)
      (volumes first' ++ facts) := by
  apply Rearrangement.inOrder_of_groups
  intro object hObject
  rcases eq_of_mem_objects hObject with rfl | rfl
  · have hBefore :
        (reshelved.collector schema bindings book).collect
            (facts ++ volumes first) =
          [ once "__typename" [], once "title" [],
            once "pages" [], both first again] := by
      with_unfolding_all rfl
    have hAfter :
        (reshelved.collector' schema bindings book).collect
            (volumes first' ++ facts) =
          [once "pages" [], both first' again'] ++
            [once "__typename" [], once "title" []] := by
      with_unfolding_all rfl
    rw [hBefore, hAfter]
    refine ⟨_, List.perm_append_comm,
      .cons ⟨rfl, .cons (.leaf _) .nil⟩
        (.cons ⟨rfl, .cons (.leaf _) .nil⟩
          (.cons ⟨rfl, .cons (.leaf _) .nil⟩
            (.cons ⟨rfl, ?_⟩ .nil)))⟩
    exact .cons .first (.cons .again .nil)
  · have hBefore :
        (reshelved.collector schema bindings query).collect
            (facts ++ volumes first) =
          [once "__typename" [], once "title" []] := by
      with_unfolding_all rfl
    have hAfter :
        (reshelved.collector' schema bindings query).collect
            (volumes first' ++ facts) =
          [once "__typename" [], once "title" []] := by
      with_unfolding_all rfl
    rw [hBefore, hAfter]
    exact ⟨_, .refl _,
      .cons ⟨rfl, .cons (.leaf _) .nil⟩
        (.cons ⟨rfl, .cons (.leaf _) .nil⟩ .nil)⟩

/- On the shelf all fields stay in order. -/
theorem keepsOrder_reshelved :
    reshelved.KeepsOrder schema bindings where
  operations := by
    refine .cons ?_ .nil
    refine Rearrangement.inOrder_of_groups fun _ _ =>
      ⟨[once "items" (volumes first' ++ facts)], .refl _,
        .cons ⟨rfl, .cons .items .nil⟩ .nil⟩
  fields := by
    intro _ _ h
    cases h with
    | leaf name => exact inOrder_leaf bindings
    | first => exact inOrder_first bindings
    | again => exact inOrder_again bindings
    | items => exact inOrder_items bindings

theorem acyclic_reshelved : reshelved.before.Acyclic :=
  ExecutableDocument.acyclic_of_rank (fun _ => 0) (by decide)

theorem defaultsAcyclic : schema.DefaultsAcyclic := by
  intro field hLoop
  have hNone : schema.inputFields = [] := rfl
  rcases Relation.TransGen.tail'_iff.1 hLoop with
    ⟨_, _, _, _, hTakes⟩
  have hMem := hTakes.mem_inputFields
  rw [hNone] at hMem
  cases hMem

/- The items in the order of the one document and the other. -/
def items : List (String × Json) :=
  [("items",
    .array
      [ .object
          [ ("__typename", .string "Book"),
            ("title", .string "A"),
            ("pages", .array [.ofInt 7]),
            ("sequel",
              .object
                [ ("title", .string "B"),
                  ("__typename", .string "Book"),
                  ("pages", .null)])],
        .null,
        .null])]

def items' : List (String × Json) :=
  [("items",
    .array
      [ .object
          [ ("pages", .array [.ofInt 7]),
            ("sequel",
              .object
                [ ("__typename", .string "Book"),
                  ("title", .string "B"),
                  ("pages", .null)]),
            ("__typename", .string "Book"),
            ("title", .string "A")],
        .null,
        .null])]

/-
  The items are shown either way, and the second is null either
  way: it has no title, whether it is asked for its title first
  or last.
-/
theorem shown_either_way :
    hooks.IgnoreNodes ∧
      (∀ bindings, reshelved.KeepsOrder schema bindings) ∧
      reshelved.before.Acyclic ∧ schema.DefaultsAcyclic ∧
      (request.execute schema hooks 6 reshelved.before).bind
          (fun run => run.response.data) = some (.object items) ∧
      (request.execute schema hooks 6 reshelved.after).bind
          (fun run => run.response.data) = some (.object items') ∧
      Json.Reordered (.object items) (.object items') ∧
      ∃ run run' enough, ∀ fuel, enough ≤ fuel →
        request.execute schema hooks fuel reshelved.before =
            some run ∧
          request.execute schema hooks fuel reshelved.after =
            some run' := by
  have hBefore :
      (request.execute schema hooks 6 reshelved.before).bind
        (fun run => run.response.data) = some (.object items) := by
    with_unfolding_all rfl
  have hAfter :
      (request.execute schema hooks 6 reshelved.after).bind
        (fun run => run.response.data) = some (.object items') := by
    with_unfolding_all rfl
  rcases Request.data_reordered request schema hooks reshelved
      hooks_ignoreNodes
      (fun bindings _ => keepsOrder_reshelved bindings) with
    ⟨hSame, hEnds⟩
  rcases Option.bind_eq_some_iff.1 hBefore with
    ⟨run, hRun, hData⟩
  rcases Option.bind_eq_some_iff.1 hAfter with
    ⟨run', hRun', hData'⟩
  have hReordered := hSame 6 6 run run' hRun hRun'
  rw [hData, hData'] at hReordered
  cases hReordered with
  | some hItems =>
      exact
        ⟨hooks_ignoreNodes, keepsOrder_reshelved,
          acyclic_reshelved, defaultsAcyclic, hBefore, hAfter,
          hItems, hEnds acyclic_reshelved defaultsAcyclic⟩

end Catalogue

------------------------------------------------------------
-- A Default Without End
------------------------------------------------------------

namespace Echo

open Catalogue (hooks select)

/- The selected fields. -/
def echoNode : FieldNode :=
  echoes.first

def mustNode : FieldNode :=
  Catalogue.node "must" []

/- A field that lacks its value, before and after the other. -/
def swapped : Rearrangement where
  before := asking [select "must" [], echoed]
  after := asking [echoed, select "must" []]
  Moved node node' :=
    node' = node ∧ (node = echoNode ∨ node = mustNode)
  definitions := by
    refine .cons (.operation ⟨⟨rfl, rfl, rfl⟩, ?_⟩) .nil
    exact ⟨[echoed, select "must" []], .swap _ _ _,
      .cons (.field ⟨rfl, .inl rfl⟩)
        (.cons (.field ⟨rfl, .inr rfl⟩) .nil)⟩
  heads := by
    rintro _ _ ⟨rfl, -⟩
    rfl
  selections := by
    rintro _ _ ⟨rfl, rfl | rfl⟩ <;> exact ⟨[], .refl _, .nil⟩

theorem keepsOrder_swapped (bindings : Entries Json) :
    swapped.KeepsOrder later bindings where
  operations := by
    refine .cons ?_ .nil
    refine Rearrangement.inOrder_of_groups fun _ _ =>
      ⟨[⟨"must", mustNode, []⟩, echoes], .swap _ _ _,
        .cons ⟨rfl, .cons ⟨rfl, .inr rfl⟩ .nil⟩
          (.cons ⟨rfl, .cons ⟨rfl, .inl rfl⟩ .nil⟩ .nil)⟩
  fields := by
    rintro _ _ ⟨rfl, rfl | rfl⟩ <;>
      exact Rearrangement.inOrder_of_groups fun _ _ =>
        ⟨[], .refl _, .nil⟩

/-
  The field that lacks its value gives null to the whole, unless
  the other one comes first, which comes to no end.
-/
theorem null_or_endless :
    later.Built ∧ hooks.IgnoreNodes ∧
      (∀ bindings, swapped.KeepsOrder later bindings) ∧
      (∀ fuel,
        (request.execute later hooks (fuel + 1)
            swapped.before).bind (fun run => run.response.data) =
          some .null) ∧
      ∀ fuel, request.execute later hooks fuel swapped.after =
        none := by
  refine
    ⟨built_later, Catalogue.hooks_ignoreNodes,
      keepsOrder_swapped, ?_, ?_⟩
  · intro fuel
    with_unfolding_all rfl
  · intro fuel
    refine execute_echoed [⟨"must", mustNode, []⟩] rfl rfl rfl ?_
    with_unfolding_all rfl

end Echo

end GraphQL
