import GraphQL.Proofs.Execution.Defaults
import GraphQL.Proofs.Execution.Inlining

/-
  Requests that come to no end.

  The arguments of a field are coerced before it is resolved. If
  this takes more than any fuel, as defaults can, then neither
  the field nor what it is selected in has a value, unless an
  error of a field before it is passed on.

  Key definitions include:
    * `ExecutionContext.Stalls`
    * `Echo.base`, `Echo.later`: schemas with such a default

  Main declarations:
    * `ExecutionContext.Stalls.executeSelections_eq`
    * `Request.execute_of_stalls`
-/

------------------------------------------------------------
-- Selections
------------------------------------------------------------

namespace GraphQL

namespace ExecutionContext

/- The fuel does not suffice for the first selected field. -/
structure Stalls
    (context : ExecutionContext)
    (object : ObjectType)
    (selections : List Selection)
    (group : FieldGroup)
    (rest : List FieldGroup)
    (field : OutputField) : Prop where
  collect_eq : context.collect object selections = group :: rest
  name_ne : group.first.head.name ≠ "__typename"
  field_eq : object.field? group.first.head.name = some field
  exhausted :
    (Coercion.arguments context.schema context.bindings
      context.fuel field group.first.head.arguments).run = none

variable {self : ExecutionContext} {object : ObjectType}
variable {selections : List Selection} {group : FieldGroup}
variable {rest : List FieldGroup} {field : OutputField}

/- Nothing comes of the selections, at whatever depth. -/
theorem Stalls.executeSelections_eq
    (h : self.Stalls object selections group rest field)
    (depth : Nat)
    (path : List PathSegment)
    (source : Json) :
    self.executeSelections depth path object source selections =
      none := by
  cases depth with
  | zero => rfl
  | succ depth =>
      have hField (execute : SelectionExecutor) :
          self.executeGroup execute path object source group =
            none := by
        simp only [executeGroup, if_neg h.name_ne, h.field_eq,
          executeField, h.exhausted]
        rfl
      simp only [executeSelections, h.collect_eq,
        Completion.traverse, hField]
      rfl

end ExecutionContext

------------------------------------------------------------
-- Requests
------------------------------------------------------------

/- Nothing comes of a request for such selections. -/
theorem Request.execute_of_stalls
    {request : Request}
    {schema : Schema}
    {hooks : Hooks}
    {fuel : Nat}
    {document : ExecutableDocument}
    {operation : Operation}
    {bindings : Entries Json}
    {object : ObjectType}
    {group : FieldGroup}
    {rest : List FieldGroup}
    {field : OutputField}
    (hSelect :
      request.select document.operations = .ok operation)
    (hBindings :
      (Coercion.bindings schema fuel request.bindings
        operation.definitions).run = some (.ok bindings))
    (hRoot : rootType schema operation = .ok object)
    (h : (request.context schema hooks fuel document operation
      bindings).Stalls object operation.selections group rest
        field) :
    request.execute schema hooks fuel document = none := by
  simp only [execute, hSelect, hBindings, hRoot,
    Option.bind_eq_bind, Option.bind_some,
    h.executeSelections_eq, Option.bind_none]

------------------------------------------------------------
-- A Default Without End
------------------------------------------------------------

namespace Echo

open Catalogue (position place declared header operation select)

/- The field that takes the input object. -/
def asked : String × OutputField :=
  ("echo",
    { OutputField.ofName "echo" (.named "String" true place) with
      location := place
      arguments :=
        [("of",
          ⟨"of", .named "Echo" true place, none, none, place,
            []⟩)] })

/- A field that needs a value. -/
def must : String × OutputField :=
  ("must",
    { OutputField.ofName "must" (.named "String" false place) with
      location := place })

def query : ObjectType :=
  ⟨header "Query", ⟨[asked], [], none⟩, none⟩

/- The schema of the document. -/
def base : Schema where
  types :=
    { types := TypeGraph.builtin.types ++
        [.defined (.object query), .defined (.inputObject echo)]
      nodup_names := by decide }
  directives := BuiltinDirective.all.map .builtin
  query := ⟨"Query", place⟩
  mutation := none
  subscription := none

theorem built_base : base.Built := by
  have hBase : (do
      let pass ← Pass.empty.load none document
      pass.build none) = .ok base := by
    with_unfolding_all rfl
  rcases Results.bind_eq_ok_iff.1 hBase with
    ⟨pass, hPass, hBuild⟩
  exact .build (.load .start hPass) hBuild

/- The second field is added later. -/
def addition : TypeSystemDocument :=
  [ .extension
      ⟨position, "Query", [],
        .object []
          [declared "must" (.nonNull (.named "String"))]⟩]

def query' : ObjectType :=
  ⟨{ header "Query" with extensions := [place] },
    ⟨[asked, must], [], none⟩, none⟩

/- The schema with the addition. -/
def later : Schema :=
  { base with
    types :=
      { types := TypeGraph.builtin.types ++
          [ .defined (.object query'),
            .defined (.inputObject echo)]
        nodup_names := by decide } }

theorem extend_addition :
    base.extend [addition] none = .ok later := by
  with_unfolding_all rfl

theorem built_later : later.Built := by
  rcases Results.bind_eq_ok_iff.1 extend_addition with
    ⟨pass, hPass, hBuild⟩
  simp only [List.foldlM_cons, List.foldlM_nil, bind_pure]
    at hPass
  have hFinish :=
    (base.result_finishExtension pass none).trans hBuild
  exact .extend built_base (.load .start hPass) hFinish

/- The selection that passes the empty object. -/
def echoed : Selection :=
  .field ⟨position, none, "echo", [("of", .object [])], []⟩ []

/- A query for fields of the root type. -/
def asking (selections : List Selection) : ExecutableDocument :=
  [.operation { operation with selections := selections }]

/- A request without a root value and without resolvers. -/
def request : Request :=
  ⟨none, [], .null, none⟩

/- The arguments of the field take all fuel. -/
theorem arguments_exhausted
    {schema : Schema}
    (hLookup : schema.lookup "Echo" =
      some (.defined (.inputObject echo)))
    (bindings : Entries Json)
    (fuel : Nat) :
    (Coercion.arguments schema bindings fuel asked.2
      [("of", .object [])]).run = none := by
  have hNext : Coercion.literal schema bindings fuel
      (.named "Echo" true place) (.object []) =
        Coercion.exhausted :=
    literal_exhausted hLookup bindings true place fuel
  have hGiven : Entries.get? [("of", Literal.object [])] "of" =
      some (.object []) := rfl
  simp only [Coercion.arguments, asked, List.mapM_cons,
    Coercion.argument, hGiven, hNext]
  rfl

/- The group of the field. -/
def echoes : FieldGroup :=
  ⟨"echo", ⟨⟨position, none, "echo", [("of", .object [])], []⟩, []⟩,
    []⟩

/- No fuel suffices for a query that starts with the field. -/
theorem execute_echoed
    {schema : Schema}
    {object : ObjectType}
    {hooks : Hooks}
    {fuel : Nat}
    {others : List Selection}
    (rest : List FieldGroup)
    (hLookup : schema.lookup "Echo" =
      some (.defined (.inputObject echo)))
    (hRoot : schema.rootType? .query = some object)
    (hField : object.field? "echo" = some asked.2)
    (hGroups :
      let selections := echoed :: others
      (request.context schema hooks fuel (asking selections)
        { operation with selections := selections } []).collect
          object selections = echoes :: rest) :
    request.execute schema hooks fuel (asking (echoed :: others)) =
      none := by
  have hType : Request.rootType schema
      { operation with selections := echoed :: others } =
        .ok object := by
    simp only [Request.rootType, operation, hRoot]
  exact Request.execute_of_stalls rfl rfl hType
    ⟨hGroups, by decide, hField,
      arguments_exhausted hLookup _ fuel⟩

end Echo

end GraphQL
