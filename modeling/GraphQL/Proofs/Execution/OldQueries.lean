import GraphQL.Proofs.Execution.EndlessInputs
import GraphQL.Proofs.Execution.OldNames

/-
  Old queries on an extended schema: they run as before.

  A document that names nothing new selects the same fields of
  an object as before it has grown, and the values of the
  fields are completed alike. Only hooks could tell the schemas
  apart, as they are told the schema and the type that a field
  stands in.

  Key definitions include:
    * `Hooks.IgnoreSchema`, `Hooks.IgnoreGrowth`
    * `AbstractType.Resolved`

  Main declarations:
    * `AbstractType.resolve_grown`
    * `ExecutionContext.executeGroup_grown`
    * `ExecutionContext.executeSelections_grown`
    * `Request.execute_extended`
-/

------------------------------------------------------------
-- Hooks
------------------------------------------------------------

namespace GraphQL

/- Hooks that do not look at the schema. -/
structure Hooks.IgnoreSchema (hooks : Hooks) : Prop where
  resolve (hook : Hook) (source : Json)
      (arguments : Entries Json) (info : ResolveInfo)
      (schema : Schema) :
    hooks.resolve hook source arguments
        { info with schema := schema } =
      hooks.resolve hook source arguments info
  isTypeOf (hook : Hook) (value : Json) (info : ResolveInfo)
      (schema : Schema) :
    hooks.isTypeOf hook value { info with schema := schema } =
      hooks.isTypeOf hook value info
  typeName (hook : Hook) (value : Json) (info : ResolveInfo)
      (schema : Schema) :
    hooks.typeName hook value { info with schema := schema } =
      hooks.typeName hook value info

/-
  Hooks that do not look at what a schema gains: neither at the
  schema, nor at what was added to the type that a field stands
  in, which they are told besides the schema.
-/
structure Hooks.IgnoreGrowth (hooks : Hooks) : Prop
    extends hooks.IgnoreSchema where
  resolve_grown (hook : Hook) (source : Json)
      (arguments : Entries Json) (info : ResolveInfo)
      (parent : ObjectType) :
    info.parent.Grows parent →
    hooks.resolve hook source arguments
        { info with parent := parent } =
      hooks.resolve hook source arguments info
  isTypeOf_grown (hook : Hook) (value : Json)
      (info : ResolveInfo) (parent : ObjectType) :
    info.parent.Grows parent →
    hooks.isTypeOf hook value { info with parent := parent } =
      hooks.isTypeOf hook value info
  typeName_grown (hook : Hook) (value : Json)
      (info : ResolveInfo) (parent : ObjectType) :
    info.parent.Grows parent →
    hooks.typeName hook value { info with parent := parent } =
      hooks.typeName hook value info

namespace Hooks.IgnoreGrowth

variable {hooks : Hooks} (h : hooks.IgnoreGrowth)
variable {info : ResolveInfo} {parent : ObjectType}
variable (hParent : info.parent.Grows parent)
variable (schema : Schema) (hook : Hook) (value : Json)

include h hParent

/- The field and its surroundings may be those of either. -/
theorem resolve_eq (arguments : Entries Json) :
    hooks.resolve hook value arguments
        { info with schema := schema, parent := parent } =
      hooks.resolve hook value arguments info :=
  (h.resolve hook value arguments { info with parent := parent }
    schema).trans
      (h.resolve_grown hook value arguments info parent hParent)

theorem isTypeOf_eq :
    hooks.isTypeOf hook value
        { info with schema := schema, parent := parent } =
      hooks.isTypeOf hook value info :=
  (h.isTypeOf hook value { info with parent := parent }
    schema).trans
      (h.isTypeOf_grown hook value info parent hParent)

theorem typeName_eq :
    hooks.typeName hook value
        { info with schema := schema, parent := parent } =
      hooks.typeName hook value info :=
  (h.typeName hook value { info with parent := parent }
    schema).trans
      (h.typeName_grown hook value info parent hParent)

end Hooks.IgnoreGrowth

------------------------------------------------------------
-- Abstract Types
------------------------------------------------------------

namespace AbstractType

/-
  Resolutions before and after: for one cause, or of one object
  that has grown, with the same notices.
-/
inductive Resolved (base extended : Schema) :
    Except AbstractTypeError ObjectType × List Notice →
    Except AbstractTypeError ObjectType × List Notice → Prop
  | ok {object next : ObjectType} (notices : List Notice) :
      base.Grown extended object next →
      Resolved base extended (.ok object, notices)
        (.ok next, notices)
  | error (cause : AbstractTypeError) (notices : List Notice) :
      Resolved base extended (.error cause, notices)
        (.error cause, notices)

/- Whether an object accepts a value by its hook. -/
def accepts
    (hooks : Hooks)
    (value : Json)
    (info : ResolveInfo)
    (candidate : ObjectType) : Bool :=
  match candidate.isTypeOf with
  | some hook => hooks.isTypeOf hook value info
  | none => false

/- The outcome of a scan that has found an object, or none. -/
def scanned
    (type : NamedType)
    (value : Json)
    (info : ResolveInfo)
    (found? : Option ObjectType) :
    Except AbstractTypeError ObjectType × List Notice :=
  let result :=
    match found? with
    | some object => .ok object
    | none =>
        .error
          (.noMatch type.name info.parent.name info.field.name
            value.text)
  (result, [.event (scanEvent type found?)])

/- A scan finds the first object that accepts a value. -/
theorem scan_eq
    (hooks : Hooks)
    (type : NamedType)
    (candidates : List ObjectType)
    (value : Json)
    (info : ResolveInfo) :
    scan hooks type candidates value info =
      scanned type value info
        (candidates.find? (accepts hooks value info)) :=
  rfl

/- One more notice may come first. -/
theorem Resolved.noting
    {base extended : Schema}
    {before after :
      Except AbstractTypeError ObjectType × List Notice}
    (h : Resolved base extended before after)
    (notice : Notice) :
    Resolved base extended (before.1, notice :: before.2)
      (after.1, notice :: after.2) := by
  cases h with
  | ok notices hGrown => exact .ok (notice :: notices) hGrown
  | error cause notices => exact .error cause (notice :: notices)

/- An object that is found comes before what is done else. -/
theorem Resolved.orElse
    {base extended : Schema}
    {before after :
      Except AbstractTypeError ObjectType × List Notice}
    (h : Resolved base extended before after)
    {found found' : Option ObjectType} :
    Option.Rel (base.Grown extended) found found' →
    Resolved base extended
      (match found with
        | some object => (.ok object, [])
        | none => before)
      (match found' with
        | some object => (.ok object, [])
        | none => after) := by
  intro hFound
  cases hFound with
  | none => exact h
  | some hGrown => exact .ok [] hGrown

section

variable {base extended : Schema} {hooks : Hooks}
variable {type next : NamedType}
variable {candidates candidates' : List ObjectType}
variable {info : ResolveInfo} {parent : ObjectType}

variable (hHooks : hooks.IgnoreGrowth)
variable (hType : type.Grows next)
variable (hCandidates : List.Forall₂ (base.Grown extended)
  candidates candidates')
variable (hParent : info.parent.Grows parent)
variable (value : Json) (schema : Schema)

include hHooks hType hCandidates hParent

/- The same possible type accepts a value. -/
theorem scan_grown :
    Resolved base extended
      (scan hooks type candidates value info)
      (scan hooks next candidates' value
        { info with schema := schema, parent := parent }) := by
  have hParentName : parent.name = info.parent.name :=
    hParent.header.name
  have hAccepts : ∀ object object',
      base.Grown extended object object' →
      accepts hooks value info object =
        accepts hooks value
          { info with schema := schema, parent := parent }
          object' := by
    intro object object' hGrown
    simp only [accepts, hGrown.grows.isTypeOf,
      hHooks.isTypeOf_eq hParent]
  have hFound := rel_find?_of_same hAccepts hCandidates
  rw [scan_eq, scan_eq]
  generalize candidates.find? _ = found at hFound ⊢
  generalize candidates'.find? _ = found' at hFound ⊢
  cases hFound with
  | none =>
      simp only [scanned, scanEvent, hType.name_eq, hParentName]
      exact .error _ _
  | some hGrown =>
      simp only [scanned, scanEvent, hType.name_eq,
        Option.map_some, hGrown.name_eq]
      exact .ok _ hGrown

omit hCandidates in
/- The same possible type is found by hook or by name. -/
theorem resolveWith_grown
    (hPossible : List.Forall₂ (base.Grown extended)
      (base.possibleTypes type) (extended.possibleTypes next))
    (hook? : Option Hook) :
    Resolved base extended
      (resolveWith base hooks type hook? value info)
      (resolveWith extended hooks next hook? value
        { info with schema := schema, parent := parent }) := by
  have hNamed (name : String) :=
    rel_find?_of_forall₂ (fun _ _ hGrown => hGrown.name_eq.symm)
      hPossible name
  have hScan (notice : Notice) :=
    (scan_grown hHooks hType hPossible hParent value
      schema).noting notice
  cases hook? with
  | some hook =>
      simp only [resolveWith, nullDiagnostic, hType.name_eq,
        hType.kind_eq, hHooks.typeName_eq hParent]
      cases hooks.typeName hook value info with
      | none => exact hScan _
      | some name =>
          refine Resolved.orElse ?_ (hNamed name)
          exact .error _ []
  | none =>
      simp only [resolveWith, absentDiagnostic, hType.name_eq,
        hType.kind_eq]
      cases value.get? "__typename" with
      | none => exact hScan _
      | some carried =>
          simp only [Option.bind_eq_bind, Option.bind_some]
          cases carried.string? with
          | none => exact hScan _
          | some name =>
              refine Resolved.orElse ?_ (hNamed name)
              exact hScan _

omit hCandidates in
/- The same object type is found for a value. -/
theorem resolve_grown
    (hGrows : base.Grows extended)
    (hClosed : base.types.Closed)
    (hLookup : base.lookup type.name = some type) :
    Resolved base extended
      (resolve base hooks type value info)
      (resolve extended hooks next value
        { info with schema := schema, parent := parent }) := by
  have hPossible :=
    hGrows.forall₂_possibleTypes hClosed hLookup hType
  have hWith (hook? : Option Hook) :=
    resolveWith_grown hHooks hType hParent value schema hPossible
      hook?
  cases hType with
  | builtin scalar => exact .error _ []
  | defined hDefined =>
      have hName := hDefined.name_eq
      cases hDefined with
      | object hType =>
          simp only [resolve, NamedType.name, hName]
          exact .error _ []
      | interface hType =>
          simp only [resolve, hType.resolveType]
          exact hWith _
      | scalar hType =>
          simp only [resolve, NamedType.name, hName]
          exact .error _ []
      | union type => exact hWith _
      | enum type => exact .error _ []
      | inputObject type => exact .error _ []

end

end AbstractType

------------------------------------------------------------
-- Execution
------------------------------------------------------------

namespace ExecutionContext

variable (self : ExecutionContext) {extended : Schema}
variable (hGrows : self.schema.Grows extended)
variable (hClosed : self.schema.types.Closed)
variable (hHooks : self.hooks.IgnoreGrowth)

section

variable {execute execute' : SelectionExecutor}
variable {group : FieldGroup}
variable (hExecute : ∀ path type next value,
  self.schema.Grown extended type next →
  execute' path next value
      (group.nodes.flatMap FieldNode.selections) =
    execute path type value
      (group.nodes.flatMap FieldNode.selections))

include hExecute

/- An object that has grown is completed as before. -/
theorem completeObject_grown
    {type next : ObjectType}
    (hType : self.schema.Grown extended type next)
    (path : List PathSegment)
    (value : Json) :
    completeObject execute' group path next value =
      completeObject execute group path type value := by
  simp only [completeObject, hExecute path type next value hType]

/- Values of an abstract type are completed as before. -/
theorem completeResolved_grown
    {before after :
      Except AbstractTypeError ObjectType × List Notice}
    (path : List PathSegment)
    (value : Json)
    (h : AbstractType.Resolved self.schema extended before
      after) :
    Completion.noting after.2
        (match after.1 with
        | .ok object =>
            completeObject execute' group path object value
        | .error error =>
            fault group path (.abstractType error)) =
      Completion.noting before.2
        (match before.1 with
        | .ok object =>
            completeObject execute group path object value
        | .error error =>
            fault group path (.abstractType error)) := by
  cases h with
  | ok notices hGrown =>
      simp only [self.completeObject_grown hExecute hGrown]
  | error cause notices => rfl

include hGrows hClosed hHooks

/- Values of a former type are completed as before. -/
theorem completeNamed_grown
    {info : ResolveInfo}
    {parent : ObjectType}
    (hParent : info.parent.Grows parent)
    (path : List PathSegment)
    {name : String}
    (hName : ¬self.schema.NewType extended name)
    (value : Json) :
    completeNamed { self with schema := extended } execute'
        { info with schema := extended, parent := parent } group
        path name value =
      self.completeNamed execute info group path name value := by
  simp only [completeNamed]
  cases hBefore : self.schema.lookup name with
  | none =>
      have hFound := hGrows.rel_lookup hName
      rw [(eq_none_iff_of_rel hFound).1 hBefore]
  | some type =>
      rcases hGrows.exists_of_lookup hBefore with
        ⟨next, hAfter, hType⟩
      have hLookup :
          self.schema.lookup type.name = some type := by
        rw [TypeGraph.name_of_lookup hBefore, hBefore]
      have hResolved := AbstractType.resolve_grown hHooks hType
        hParent value extended hGrows hClosed hLookup
      have hSerialize := hType.serialize_eq value
      rw [hAfter]
      cases hType with
      | builtin scalar => rfl
      | defined hType =>
          cases hType with
          | @object type next hType =>
              have hGrown :=
                Schema.Grows.grown_of_lookup hBefore hAfter hType
              simp only [hType.isTypeOf, hGrown.name_eq,
                hHooks.isTypeOf_eq hParent]
              rw [self.completeObject_grown hExecute hGrown]
          | inputObject type => rfl
          | scalar _ =>
              simp only [hSerialize]
              rfl
          | enum _ => rfl
          | interface _ =>
              exact self.completeResolved_grown hExecute path
                value hResolved
          | union _ =>
              exact self.completeResolved_grown hExecute path
                value hResolved

/- Values are completed as before. -/
theorem completeValue_grown
    {info : ResolveInfo}
    {parent : ObjectType}
    (hParent : info.parent.Grows parent)
    {type : TypeRef}
    (hName : ¬self.schema.NewType extended type.innermost)
    (path : List PathSegment)
    (value : Json) :
    completeValue { self with schema := extended } execute'
        { info with schema := extended, parent := parent } group
        type path value =
      self.completeValue execute info group type path value := by
  have hParentName : parent.name = info.parent.name :=
    hParent.header.name
  induction type generalizing path value with
  | named name nullable location =>
      change ¬self.schema.NewType extended name at hName
      simp only [completeValue, hParentName,
        self.completeNamed_grown hGrows hClosed hHooks hExecute
          hParent path hName]
  | list inner nullable location ih =>
      cases value <;>
        simp only [completeValue, hParentName, ih hName]

/- Fields are executed as before. -/
theorem executeField_grown
    {type next : ObjectType}
    (hType : self.schema.Grown extended type next)
    {name : String}
    {field : OutputField}
    (hField : type.field? name = some field)
    (path : List PathSegment)
    (source : Json) :
    executeField { self with schema := extended } execute' path
        next source field group =
      self.executeField execute path type source field
        group := by
  have hMem := TypeGraph.mem_of_lookup hType.before
  have hEntry := Entries.mem_of_get? hField
  rcases hClosed.fields _ hMem type.shape rfl _ hEntry with
    ⟨found, hFound, -⟩
  have hArguments := hGrows.arguments_eq hClosed self.bindings
    self.fuel (hClosed.arguments _ hMem type.shape rfl _ hEntry)
    group.first.head.arguments
  have hParent :
      (self.info path type field group).parent.Grows next :=
    hType.grows
  have hInfo :
      info { self with schema := extended } path next field
          group =
        { self.info path type field group with
          schema := extended, parent := next } := rfl
  have hResolve : ∀ arguments,
      resolve { self with schema := extended }
          (info { self with schema := extended } path next field
            group) source arguments =
        self.resolve (self.info path type field group) source
          arguments := by
    intro arguments
    rw [hInfo]
    simp only [resolve, hParent.shape.resolveField,
      hHooks.resolve_eq hParent]
  simp only [executeField, hArguments, hResolve]
  rw [hInfo]
  simp only [self.completeValue_grown hGrows hClosed hHooks
    hExecute hParent (Schema.Grows.not_newType hFound)]

/- A group of a former field is executed as before. -/
theorem executeGroup_grown
    {type next : ObjectType}
    (hType : self.schema.Grown extended type next)
    (hName : ¬self.schema.NewField extended
      group.first.head.name)
    (path : List PathSegment)
    (source : Json) :
    executeGroup { self with schema := extended } execute' path
        next source group =
      self.executeGroup execute path type source group := by
  simp only [executeGroup, hType.name_eq, hType.field?_eq hName]
  cases hField : type.field? group.first.head.name with
  | none => rfl
  | some field =>
      simp only [self.executeField_grown hGrows hClosed hHooks
        hExecute hType hField]

end

include hGrows hClosed hHooks

/-
  Selections that name nothing new are executed as before, by
  induction on the fuel.
-/
theorem executeSelections_grown
    (hFragments : ∀ fragment ∈ self.document.fragments,
      fragment.Avoids (self.schema.additions extended))
    {type next : ObjectType}
    (hType : self.schema.Grown extended type next)
    {selections : List Selection}
    (hSelections : Selection.AvoidsAll
      (self.schema.additions extended) selections)
    (fuel : Nat)
    (path : List PathSegment)
    (source : Json) :
    executeSelections { self with schema := extended } fuel path
        next source selections =
      self.executeSelections fuel path type source
        selections := by
  induction fuel generalizing type next selections path source
    with
  | zero => rfl
  | succ fuel ih =>
      have hCollect :
          collect { self with schema := extended } next
              selections =
            self.collect type selections :=
        (self.collector type).collect_grown
          (fun _ hCondition =>
            hGrows.fragmentApplies_eq hType.name_eq hCondition)
          hFragments hSelections
      have hGroups :
          FieldGroup.AvoidAll (self.schema.additions extended)
            (self.collect type selections) :=
        (self.collector type).collect_avoids hFragments
          hSelections
      rw [executeSelections, executeSelections, hCollect]
      congr 1
      refine Completion.traverse_eq_of_forall₂
        (List.forall₂_same.2 ?_)
      intro group hGroup
      have hNodes := hGroups group hGroup
      refine self.executeGroup_grown hGrows hClosed hHooks ?_
        hType (hNodes _ List.mem_cons_self).field path source
      intro path type next value hType
      exact ih hType (Selection.avoidsAll_nodes hNodes) path
        value

end ExecutionContext

------------------------------------------------------------
-- Requests
------------------------------------------------------------

namespace Schema.Grows

variable {base extended : Schema}

/- The root type of a kind of operation has grown. -/
theorem exists_rootType
    (hGrows : base.Grows extended)
    {operation : OperationKind}
    {type : ObjectType}
    (h : base.rootType? operation = some type) :
    ∃ next, extended.rootType? operation = some next ∧
      base.Grown extended type next := by
  rcases Option.bind_eq_some_iff.1 h with ⟨ref, hRef, hObject⟩
  rcases Option.bind_eq_some_iff.1 hObject with
    ⟨found, hFound, hType⟩
  cases NamedType.eq_of_object?_eq_some hType
  rcases hGrows.exists_grown hFound with ⟨next, hNext, hGrown⟩
  exact
    ⟨next,
      rootType?_eq_of_lookup (hGrows.roots operation ref hRef)
        hNext, hGrown⟩

end Schema.Grows

namespace Request

/- The operation that is selected is one of them. -/
theorem mem_of_select
    {request : Request}
    {operations : List Operation}
    {operation : Operation}
    (h : request.select operations = .ok operation) :
    operation ∈ operations := by
  unfold select at h
  split at h
  · simp only at h
    split at h
    · next found hFound =>
        cases h
        exact List.mem_of_find?_eq_some hFound
    · cases h
  · split at h
    · cases h
      exact List.mem_singleton_self _
    · cases h
    · cases h

/- Operations of some kind are refused, or have a root type. -/
theorem rootType_cases
    {schema extended : Schema}
    {operation : Operation}
    {type next : ObjectType}
    (hType : schema.rootType? operation.kind = some type)
    (hNext : extended.rootType? operation.kind = some next) :
    (∃ error, rootType schema operation = .error error ∧
      rootType extended operation = .error error) ∨
    (rootType schema operation = .ok type ∧
      rootType extended operation = .ok next) := by
  unfold rootType
  cases hKind : operation.kind with
  | subscription => exact .inl ⟨_, rfl, rfl⟩
  | _ =>
      rw [hKind] at hType hNext
      exact .inr ⟨by simp only [hType], by simp only [hNext]⟩

end Request

------------------------------------------------------------
-- A Catalogue
------------------------------------------------------------

namespace Catalogue

/- Later declarations: codes of items, and authors of books. -/
def appendix : TypeSystemDocument :=
  [ .extension
      ⟨position, "Item", [],
        .interface [] [declared "code" (.named "String")]⟩,
    .extension
      ⟨position, "Book", [],
        .object []
          [ declared "code" (.named "String"),
            declared "author" (.named "Author")]⟩,
    .type
      ⟨position, none, "Author", [],
        .object []
          [ declared "name" (.named "String"),
            declared "books" (.list (.named "Item"))]⟩,
    .directive ⟨position, none, "signed", [], false, ["FIELD"]⟩]

/- The catalogue with the later declarations. -/
def later : Schema :=
  match schema.extend [appendix] none with
  | .ok extended => extended
  | .error _ => schema

theorem extend_appendix :
    schema.extend [appendix] none = .ok later := by
  have hOk : (schema.extend [appendix] none).isOk = true := by
    with_unfolding_all rfl
  unfold later
  cases hExtended : schema.extend [appendix] none with
  | ok extended => rfl
  | error error =>
      rw [hExtended] at hOk
      cases hOk

theorem appendix_adds :
    ∀ definition ∈ appendix, definition.Adds schema.types := by
  simp only [appendix, List.forall_mem_cons]
  refine ⟨.interface _, .object _, ?_, trivial, nofun⟩
  exact nofun

theorem hooks_ignoreGrowth : hooks.IgnoreGrowth where
  resolve _ _ _ _ _ := rfl
  isTypeOf _ _ _ _ := rfl
  typeName _ _ _ _ := rfl
  resolve_grown _ _ _ _ _ _ := rfl
  isTypeOf_grown _ _ _ _ _ := rfl
  typeName_grown _ _ _ _ _ := rfl

theorem exists_pass :
    ∃ pass, Pass.AddsTo schema pass ∧
      pass.build none = .ok later := by
  refine Pass.AddsTo.exists_of_extend ?_ extend_appendix
  intro document hDocument
  rw [List.mem_singleton.1 hDocument]
  exact appendix_adds

/- The old operation names nothing of the later declarations. -/
theorem requested_avoids :
    requested.Avoids (schema.additions later) := by
  rcases exists_pass with ⟨pass, hPass, hBuild⟩
  have hGrows := hPass.grows built hBuild
  have hField {name : String}
      (h : schema.addsField later name = false) :
      ¬schema.NewField later name := by
    rw [hGrows.newField_iff, h]
    exact Bool.false_ne_true
  have hItems : ¬schema.NewField later "items" :=
    hField (by with_unfolding_all rfl)
  have hTypename : ¬schema.NewField later "__typename" :=
    hField (by with_unfolding_all rfl)
  have hTitle : ¬schema.NewField later "title" :=
    hField (by with_unfolding_all rfl)
  have hPages : ¬schema.NewField later "pages" :=
    hField (by with_unfolding_all rfl)
  have hSequel : ¬schema.NewField later "sequel" :=
    hField (by with_unfolding_all rfl)
  have hBook : ¬schema.NewType later "Book" := by
    have hLookup : schema.lookup "Book" =
        some (.defined (.object book)) := by
      with_unfolding_all rfl
    exact Schema.Grows.not_newType hLookup
  refine ⟨?_, nofun⟩
  intro found hFound
  rw [List.mem_singleton.1 hFound]
  refine ⟨nofun, ?_⟩
  simp [operation, select, Selection.AvoidsAll,
    Selection.Avoids, Schema.additions, hItems, hTypename,
    hTitle, hPages, hSequel, hBook]

end Catalogue

------------------------------------------------------------
-- A Default Without End
------------------------------------------------------------

namespace Echo

open Catalogue (select)

/- Hooks that name the fields of the type of a field. -/
def naming : Hooks where
  resolve _ _ _ info :=
    .value
      (.string (", ".intercalate info.parent.shape.fields.names))
  isTypeOf _ _ _ := false
  typeName _ _ _ := none

theorem naming_ignoreSchema : naming.IgnoreSchema where
  resolve _ _ _ _ _ := rfl
  isTypeOf _ _ _ _ := rfl
  typeName _ _ _ _ := rfl

/- A request that resolves all fields by a hook. -/
def named : Request :=
  { request with resolver := some default }

theorem exists_addition :
    ∃ pass, Pass.AddsTo base pass ∧
      pass.build none = .ok later := by
  refine Pass.AddsTo.exists_of_extend ?_ extend_addition
  intro document hDocument
  rw [List.mem_singleton.1 hDocument, addition,
    List.forall_mem_singleton]
  exact .object _

/- Queries for the field do not name what is added. -/
theorem asking_avoids
    {selection : Selection}
    (h : selection = select "echo" [] ∨ selection = echoed) :
    (asking [selection]).Avoids (base.additions later) := by
  rcases exists_addition with ⟨pass, hPass, hBuild⟩
  have hEcho : ¬base.NewField later "echo" := by
    rw [(hPass.grows built_base hBuild).newField_iff]
    have hOld : base.addsField later "echo" = false := by
      with_unfolding_all rfl
    rw [hOld]
    exact Bool.false_ne_true
  refine ⟨?_, nofun⟩
  intro found hFound
  rw [List.mem_singleton.1 hFound]
  refine ⟨nofun, ?_⟩
  rcases h with rfl | rfl <;>
    simp [select, echoed, Selection.AvoidsAll, Selection.Avoids,
      Schema.additions, hEcho]

end Echo

end GraphQL
