import GraphQL.Proofs.Execution.Gathering
import GraphQL.Proofs.Execution.Invariant

/-
  Execution of normal forms: a document and its normal form
  have the same response.

  Groups of the same fields, some of them repeated, are
  executed alike: their first fields agree but for their own
  selections, and their selections again have the same fields,
  some of them repeated. Only hooks could tell them apart, as
  they are told the fields of a group.

  Key definitions include:
    * `Hooks.IgnoreNodes`
    * `Request.coerced`

  Main declarations:
    * `ExecutionContext.executeGroup_eq`
    * `ExecutionContext.executeSelections_eq`
    * `Request.execute_normalise`
-/

------------------------------------------------------------
-- Hooks
------------------------------------------------------------

namespace GraphQL

/- Hooks that do not look at the fields of a group. -/
structure Hooks.IgnoreNodes (hooks : Hooks) : Prop where
  resolve (hook : Hook) (source : Json)
      (arguments : Entries Json) (info : ResolveInfo)
      (nodes : List FieldNode) :
    hooks.resolve hook source arguments
        { info with nodes := nodes } =
      hooks.resolve hook source arguments info
  isTypeOf (hook : Hook) (value : Json) (info : ResolveInfo)
      (nodes : List FieldNode) :
    hooks.isTypeOf hook value { info with nodes := nodes } =
      hooks.isTypeOf hook value info
  typeName (hook : Hook) (value : Json) (info : ResolveInfo)
      (nodes : List FieldNode) :
    hooks.typeName hook value { info with nodes := nodes } =
      hooks.typeName hook value info

namespace AbstractType

variable {hooks : Hooks}

/- Asking possible types does not turn on the fields. -/
theorem scan_nodes
    (hHooks : hooks.IgnoreNodes)
    (type : NamedType)
    (candidates : List ObjectType)
    (value : Json)
    (info : ResolveInfo)
    (nodes : List FieldNode) :
    scan hooks type candidates value { info with nodes := nodes } =
      scan hooks type candidates value info := by
  simp only [scan, hHooks.isTypeOf]

/- The resolution of a type does not turn on the fields. -/
theorem resolve_nodes
    (hHooks : hooks.IgnoreNodes)
    (schema : Schema)
    (type : NamedType)
    (value : Json)
    (info : ResolveInfo)
    (nodes : List FieldNode) :
    resolve schema hooks type value { info with nodes := nodes } =
      resolve schema hooks type value info := by
  simp only [resolve, resolveWith, hHooks.typeName,
    scan_nodes hHooks]

end AbstractType

/- Fields are resolved alike, whichever group asks for them. -/
theorem ExecutionContext.resolve_info_eq
    (self : ExecutionContext)
    (hHooks : self.hooks.IgnoreNodes)
    (document : ExecutableDocument)
    (path : List PathSegment)
    (parent : ObjectType)
    (field : OutputField)
    (group other : FieldGroup)
    (source : Json)
    (arguments : Entries Json) :
    resolve { self with document := document }
        (info { self with document := document } path parent
          field other) source arguments =
      self.resolve (self.info path parent field group) source
        arguments := by
  have hInfo :
      info { self with document := document } path parent field
          other =
        { self.info path parent field group with
          nodes := other.nodes } := rfl
  rw [hInfo]
  simp only [resolve, hHooks.resolve]

------------------------------------------------------------
-- Groups
------------------------------------------------------------

/- Members that give the same are completed to the same. -/
theorem Completion.traverse_eq_of_forall₂
    {α β γ : Type}
    {f : α → Completion γ}
    {g : β → Completion γ}
    {as : List α}
    {bs : List β}
    (h : List.Forall₂ (fun a b => g b = f a) as bs) :
    Completion.traverse g bs = Completion.traverse f as := by
  induction h with
  | nil => rfl
  | cons hFirst _ ih => rw [traverse, traverse, hFirst, ih]

/-
  Groups that are executed alike: of one key, with first fields
  that differ in their selections only, and such that all their
  selections give the same.
-/
structure FieldGroup.Alike
    (execute execute' : SelectionExecutor)
    (group other : FieldGroup) : Prop where
  key : other.key = group.key
  head : other.first.head = group.first.head
  selections (path : List PathSegment) (type : ObjectType)
      (value : Json) :
    execute' path type value
        (other.nodes.flatMap FieldNode.selections) =
      execute path type value
        (group.nodes.flatMap FieldNode.selections)

namespace ExecutionContext

variable {execute execute' : SelectionExecutor}
variable {group other : FieldGroup}

/- Objects are completed alike. -/
theorem completeObject_eq
    (h : group.Alike execute execute' other)
    (path : List PathSegment)
    (type : ObjectType)
    (value : Json) :
    completeObject execute' other path type value =
      completeObject execute group path type value := by
  simp only [completeObject, h.selections]

/- Faults are reported at the same place. -/
theorem fault_eq
    {α : Type}
    (h : group.Alike execute execute' other)
    (path : List PathSegment)
    (cause : FieldFault) :
    (fault other path cause : Completion α) =
      fault group path cause := by
  simp only [fault, h.head]

/- Values of named types are completed alike. -/
theorem completeNamed_eq
    (self : ExecutionContext)
    (hHooks : self.hooks.IgnoreNodes)
    (document : ExecutableDocument)
    (h : group.Alike execute execute' other)
    (info : ResolveInfo)
    (nodes : List FieldNode)
    (path : List PathSegment)
    (name : String)
    (value : Json) :
    completeNamed { self with document := document } execute'
        { info with nodes := nodes } other path name value =
      self.completeNamed execute info group path name value := by
  simp only [completeNamed, completeObject_eq h, fault_eq h,
    hHooks.isTypeOf, AbstractType.resolve_nodes hHooks]

/- Values are completed alike. -/
theorem completeValue_eq
    (self : ExecutionContext)
    (hHooks : self.hooks.IgnoreNodes)
    (document : ExecutableDocument)
    (h : group.Alike execute execute' other)
    (info : ResolveInfo)
    (nodes : List FieldNode)
    (type : TypeRef)
    (path : List PathSegment)
    (value : Json) :
    completeValue { self with document := document } execute'
        { info with nodes := nodes } other type path value =
      self.completeValue execute info group type path value := by
  induction type generalizing path value with
  | named name nullable location =>
      simp only [completeValue, fault_eq h,
        self.completeNamed_eq hHooks document h]
  | list inner nullable location ih =>
      cases value <;> simp only [completeValue, fault_eq h, ih]

/- Fields are executed alike. -/
theorem executeField_eq
    (self : ExecutionContext)
    (hHooks : self.hooks.IgnoreNodes)
    (document : ExecutableDocument)
    (h : group.Alike execute execute' other)
    (path : List PathSegment)
    (parent : ObjectType)
    (source : Json)
    (field : OutputField) :
    executeField { self with document := document } execute' path
        parent source field other =
      self.executeField execute path parent source field
        group := by
  have hValue := self.completeValue_eq hHooks document h
    (self.info path parent field group) other.nodes
  have hResolve := self.resolve_info_eq hHooks document path
    parent field group other source
  simp only [executeField, hResolve, fault_eq h, h.head]
  simp only [← hValue]
  rfl

/- Groups that are alike have the same entry. -/
theorem executeGroup_eq
    (self : ExecutionContext)
    (hHooks : self.hooks.IgnoreNodes)
    (document : ExecutableDocument)
    (h : group.Alike execute execute' other)
    (path : List PathSegment)
    (parent : ObjectType)
    (source : Json) :
    executeGroup { self with document := document } execute' path
        parent source other =
      self.executeGroup execute path parent source group := by
  simp only [executeGroup, h.head, h.key,
    self.executeField_eq hHooks document h]

------------------------------------------------------------
-- Selections
------------------------------------------------------------

/- What collects the fields of an object. -/
def collector (self : ExecutionContext) (object : ObjectType) :
    Collector :=
  ⟨self.schema, self.document, self.bindings, object⟩

/- What decides the normal form of selections. -/
def normaliser (self : ExecutionContext) : Normaliser :=
  self.document.normaliser self.bindings

/-
  Selections without spreads that have the fields of the normal
  form of others, some of them repeated.
-/
structure Inlines
    (context : ExecutionContext)
    (selections others : List Selection) : Prop where
  free : Selection.spreadsAll others = []
  repeats (object : ObjectType) :
    Repeats
      ((context.collector object).nodesAll
        (context.normaliser.selections selections))
      ((context.collector object).nodesAll others)

/- The normal form of selections inlines them. -/
theorem inlines_selections
    (self : ExecutionContext)
    (selections : List Selection) :
    self.Inlines selections
      (self.normaliser.selections selections) :=
  ⟨self.normaliser.spreadsAll_selections selections,
    fun _ => .refl _⟩

/- A group of the same fields inlines the selections of all. -/
theorem inlines_of_restates
    (self : ExecutionContext)
    (h : FieldGroup.Restates self.normaliser.node group other) :
    self.Inlines (group.nodes.flatMap FieldNode.selections)
      (other.nodes.flatMap FieldNode.selections) := by
  constructor
  · refine Selection.spreadsAll_flatMap_eq_nil ?_
    intro node hMem
    rcases List.mem_map.mp ((h.nodes.mem_iff node).mpr hMem)
      with ⟨origin, _, rfl⟩
    exact self.normaliser.spreadsAll_selections _
  · intro object
    have hNormal :
        self.normaliser.selections
            (group.nodes.flatMap FieldNode.selections) =
          (group.nodes.map self.normaliser.node).flatMap
            FieldNode.selections := by
      rw [Normaliser.selections_flatMap, List.flatMap_map]
      rfl
    rw [hNormal, Collector.nodesAll_flatMap,
      Collector.nodesAll_flatMap]
    exact h.nodes.flatMap _

/-
  Selections and what inlines them are executed alike, by
  induction on the fuel.
-/
theorem executeSelections_eq
    (self : ExecutionContext)
    (hHooks : self.hooks.IgnoreNodes)
    (hAcyclic : self.document.Acyclic)
    (document : ExecutableDocument)
    (fuel : Nat)
    (path : List PathSegment)
    (object : ObjectType)
    (source : Json)
    {selections others : List Selection}
    (h : self.Inlines selections others) :
    executeSelections { self with document := document } fuel path
        object source others =
      self.executeSelections fuel path object source
        selections := by
  induction fuel generalizing path object source selections others
    with
  | zero => rfl
  | succ fuel ih =>
      have hGroups :=
        (self.collector object).forall₂_collect hAcyclic document
          h.free (h.repeats object)
      rw [executeSelections, executeSelections]
      congr 1
      refine Completion.traverse_eq_of_forall₂ (hGroups.imp ?_)
      intro group other hRestates
      refine self.executeGroup_eq hHooks document ?_ path object
        source
      refine ⟨hRestates.key, ?_, ?_⟩
      · rw [hRestates.first_eq]
        rfl
      · intro path type value
        exact ih path type value
          (self.inlines_of_restates hRestates)

end ExecutionContext

------------------------------------------------------------
-- Requests
------------------------------------------------------------

namespace Request

/- The coerced variables of the operation of a request. -/
def coerced
    (request : Request)
    (schema : Schema)
    (fuel : Nat)
    (document : ExecutableDocument) : Entries Json :=
  match request.select document.operations with
  | .error _ => []
  | .ok operation =>
      let bindings :=
        (Coercion.bindings schema fuel request.bindings
          operation.definitions).run
      match bindings with
      | some (.ok bindings) => bindings
      | _ => []

/- The coerced variables, where there are any. -/
theorem coerced_eq
    (request : Request)
    {schema : Schema}
    {fuel : Nat}
    {document : ExecutableDocument}
    {operation : Operation}
    {bindings : Entries Json}
    (hSelect :
      request.select document.operations = .ok operation)
    (hBindings :
      (Coercion.bindings schema fuel request.bindings
        operation.definitions).run = some (.ok bindings)) :
    request.coerced schema fuel document = bindings := by
  simp only [coerced, hSelect, hBindings]

/- The same operation is selected of the normal forms. -/
theorem select_map
    (request : Request)
    (self : Normaliser)
    (operations : List Operation) :
    request.select (operations.map self.operation) =
      (request.select operations).map self.operation := by
  unfold select
  cases request.operationName with
  | some name =>
      have hFound :
          (operations.map self.operation).find?
              (fun operation => operation.name == some name) =
            (operations.find? fun operation =>
              operation.name == some name).map
                self.operation :=
        List.find?_map
      dsimp only
      rw [hFound]
      cases operations.find? fun operation =>
        operation.name == some name <;> rfl
  | none =>
      match operations with
      | [] => rfl
      | [_] => rfl
      | _ :: _ :: _ => rfl

/-
  The selections of an operation are executed like their normal
  form under the variables that it is for.
-/
theorem executeSelections_normalise
    (request : Request)
    (schema : Schema)
    (hooks : Hooks)
    (fuel : Nat)
    (document : ExecutableDocument)
    (hHooks : hooks.IgnoreNodes)
    (hAcyclic : document.Acyclic)
    (operation : Operation)
    (bindings : Entries Json)
    (object : ObjectType) :
    (request.context schema hooks fuel
          (document.normalise bindings)
          ((document.normaliser bindings).operation operation)
          bindings).executeSelections
        fuel [] object request.rootValue
        ((document.normaliser bindings).selections
          operation.selections) =
      (request.context schema hooks fuel document operation
          bindings).executeSelections
        fuel [] object request.rootValue operation.selections := by
  let context :=
    request.context schema hooks fuel document operation bindings
  exact context.executeSelections_eq hHooks hAcyclic
    (document.normalise bindings) fuel [] object
    request.rootValue
    (context.inlines_selections operation.selections)

/-
  A document and its normal form under the coerced variables
  have the same response and the same notices, if fragments do
  not spread themselves and hooks do not look at the fields of
  a group.

  The normal form replaces every spread by the normal form of
  its fragment. From any selections the same groups of fields
  are collected as from their normal form, where fields may be
  repeated: to enter a fragment once loses nothing.
-/
theorem execute_normalise
    (request : Request)
    (schema : Schema)
    (hooks : Hooks)
    (fuel : Nat)
    (document : ExecutableDocument)
    (hHooks : hooks.IgnoreNodes)
    (hAcyclic : document.Acyclic) :
    request.execute schema hooks fuel
          (document.normalise
            (request.coerced schema fuel document)) =
        request.execute schema hooks fuel document ∧
      (∀ bindings selections,
        (document.normaliser bindings).selections selections =
          (document.normaliser bindings).all
            (document.normaliser bindings).body selections) ∧
      ∀ bindings object selections,
        List.Forall₂
          (FieldGroup.Restates (document.normaliser bindings).node)
          (Collector.collect
            ⟨schema, document, bindings, object⟩ selections)
          (Collector.collect
            ⟨schema, document.normalise bindings, bindings,
              object⟩
            ((document.normaliser bindings).selections
              selections)) := by
  refine ⟨?_, ?_, ?_⟩
  · unfold execute
    rw [ExecutableDocument.operations_normalise, select_map]
    cases hSelect : request.select document.operations with
    | error error => rfl
    | ok operation =>
        have hDefinitions (bindings : Entries Json) :
            ((document.normaliser bindings).operation
                operation).definitions =
              operation.definitions := rfl
        have hRoot (bindings : Entries Json) :
            rootType schema
                ((document.normaliser bindings).operation
                  operation) =
              rootType schema operation := rfl
        simp only [Except.map, hDefinitions, hRoot]
        cases hBindings :
            (Coercion.bindings schema fuel request.bindings
              operation.definitions).run with
        | none => rfl
        | some result =>
            simp only [Option.bind_eq_bind, Option.bind_some]
            cases result with
            | error errors => rfl
            | ok bindings =>
                rw [request.coerced_eq hSelect hBindings]
                cases rootType schema operation with
                | error error => rfl
                | ok object =>
                    exact congrArg
                      (fun outcome? =>
                        outcome?.bind fun outcome =>
                          some (run operation outcome))
                      (request.executeSelections_normalise schema
                        hooks fuel document hHooks hAcyclic
                        operation bindings object)
  · intro bindings selections
    exact (document.normaliser bindings).selections_eq hAcyclic
      selections
  · intro bindings object selections
    let collector : Collector :=
      ⟨schema, document, bindings, object⟩
    exact collector.forall₂_collect_selections hAcyclic
      (document.normalise bindings) selections

end Request

------------------------------------------------------------
-- A Catalogue
------------------------------------------------------------

namespace Catalogue

/- A spread of a fragment. -/
def spread (name : String) : Selection :=
  .spread ⟨position, name, []⟩

/- An inline fragment. -/
def within (type : String) (selections : List Selection) :
    Selection :=
  .inline ⟨position, some type, []⟩ selections

/-
  Fragments that are spread again and again, one of them by
  the other and one that is not defined, and the pages of a
  book, which may be skipped.
-/
def spreading : ExecutableDocument :=
  [ .operation
      { operation with
        definitions :=
          [⟨position, "short", .named "Boolean", none⟩]
        selections :=
          [ select "items"
              [ spread "Shown",
                .inline
                  ⟨position, some "Book",
                    [⟨position, "skip",
                      [("if", .variable "short")]⟩]⟩
                  [select "pages" []],
                select "sequel" [spread "Kind", spread "Shown"],
                within "Book"
                  [select "sequel"
                    [spread "Shown", spread "Missing"]],
                spread "Kind", spread "Shown"]]},
    .fragment
      ⟨position, "Shown", "Item", [],
        [spread "Kind", select "title" []]⟩,
    .fragment
      ⟨position, "Kind", "Item", [], [select "__typename" []]⟩]

/- The fragments in place. -/
def kind : Selection :=
  within "Item" [select "__typename" []]

def shown : Selection :=
  within "Item" [kind, select "title" []]

/- A request that asks for few fields. -/
def short : Request :=
  { request with bindings := [("short", .bool true)] }

theorem hooks_ignoreNodes : hooks.IgnoreNodes where
  resolve _ _ _ _ _ := rfl
  isTypeOf _ _ _ _ := rfl
  typeName _ _ _ _ := rfl

theorem acyclic_spreading : spreading.Acyclic :=
  ExecutableDocument.acyclic_of_rank
    (fun name => if name = "Shown" then 1 else 0) (by decide)

/- The items are shown alike with the fragments in place. -/
theorem fragments_in_place :
    hooks.IgnoreNodes ∧ spreading.Acyclic ∧
      ((spreading.normalise
            (short.coerced schema 6 spreading)).operations.map
          Operation.selections =
        [[select "items"
          [ shown, select "sequel" [kind, shown],
            within "Book" [select "sequel" [shown]], kind,
            shown]]]) ∧
      (short.execute schema hooks 6 spreading).isSome = true ∧
      short.execute schema hooks 6
            (spreading.normalise
              (short.coerced schema 6 spreading)) =
          short.execute schema hooks 6 spreading ∧
        (∀ bindings selections,
          (spreading.normaliser bindings).selections selections =
            (spreading.normaliser bindings).all
              (spreading.normaliser bindings).body selections) ∧
        ∀ bindings object selections,
          List.Forall₂
            (FieldGroup.Restates
              (spreading.normaliser bindings).node)
            (Collector.collect
              ⟨schema, spreading, bindings, object⟩ selections)
            (Collector.collect
              ⟨schema, spreading.normalise bindings, bindings,
                object⟩
              ((spreading.normaliser bindings).selections
                selections)) := by
  have hNormal :
      (spreading.normalise
            (short.coerced schema 6 spreading)).operations.map
          Operation.selections =
        [[select "items"
          [ shown, select "sequel" [kind, shown],
            within "Book" [select "sequel" [shown]], kind,
            shown]]] := by
    with_unfolding_all rfl
  have hRuns :
      (short.execute schema hooks 6 spreading).isSome = true := by
    with_unfolding_all rfl
  exact
    ⟨hooks_ignoreNodes, acyclic_spreading, hNormal, hRuns,
      Request.execute_normalise short schema hooks 6 spreading
        hooks_ignoreNodes acyclic_spreading⟩

end Catalogue

end GraphQL
