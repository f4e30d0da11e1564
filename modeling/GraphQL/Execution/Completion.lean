import GraphQL.Execution.InputCoercion
import GraphQL.Execution.Collection
import GraphQL.Execution.AbstractType

/-
  Execution of selection sets.

  A field is resolved, and its value completed as its type
  asks. An error gives null where null is admitted and is
  passed on elsewhere. Resolvers may give values without end,
  so execution spends fuel.

  Key definitions include:
    * `FieldFault`, `FieldError`
    * `Completed`, `Completion`
    * `ExecutionContext.completeValue`
    * `ExecutionContext.executeField`
    * `ExecutionContext.executeSelections`
-/

------------------------------------------------------------
-- Causes
------------------------------------------------------------

namespace GraphQL

/- Why a field has no value. -/
inductive FieldFault where
  | argument (error : ArgumentError)
  | resolver (message : String)
  | null (parent field : String)
  | notList (parent field : String)
  | undefinedType (type : String)
  | inputType (type : String)
  | notInstance (type printed : String)
  | abstractType (error : AbstractTypeError)
  | leaf (error : LeafError)
  deriving Repr, Inhabited

/- The message of a fault. -/
def FieldFault.message : FieldFault → String
| argument error => error.message
| resolver message => message
| null parent field =>
    "Cannot return null for non-nullable field " ++
    s!"{parent}.{field}."
| notList parent field =>
    "Expected Iterable, but did not find one for field " ++
    s!"\"{parent}.{field}\"."
| undefinedType type => s!"Undefined type {type}"
| inputType type => s!"Field with input object type {type}"
| notInstance type printed =>
    s!"Expected value of type \"{type}\" but got: {printed}."
| abstractType error => error.message
| leaf error => error.message

/- A fault with its places in the response and the document. -/
structure FieldError where
  fault : FieldFault
  path : List PathSegment
  position : Position
  deriving Repr, Inhabited

/- The form of an error in a response. -/
def FieldError.report (error : FieldError) : ResponseError :=
  ⟨error.fault.message, [error.position], error.path⟩

------------------------------------------------------------
-- Completions
------------------------------------------------------------

/-
  A value, or nothing while an error is passed on, with the
  errors and notices on the way.
-/
structure Completed (α : Type) where
  value : Option α
  errors : List FieldError
  notices : List Notice
  deriving Inhabited

/- What is completed, unless the fuel runs out before. -/
abbrev Completion (α : Type) := Option (Completed α)

namespace Completion

/- A value without errors. -/
def done {α : Type} (value : α) : Completion α :=
  some ⟨some value, [], []⟩

/- An error to be passed on. -/
def fail {α : Type} (error : FieldError) : Completion α :=
  some ⟨none, [error], []⟩

/- Go on with the value; an error that is passed on ends it. -/
def andThen {α β : Type}
    (first : Completion α)
    (next : α → Completion β) : Completion β :=
  match first with
  | none => none
  | some ⟨none, errors, notices⟩ => some ⟨none, errors, notices⟩
  | some ⟨some value, errors, notices⟩ =>
      (next value).map fun last =>
        ⟨last.value, errors ++ last.errors,
          notices ++ last.notices⟩

/- Put notices before those of a completion. -/
def noting {α : Type}
    (notices : List Notice)
    (last : Completion α) : Completion α :=
  last.map fun last =>
    { last with notices := notices ++ last.notices }

/- Change the value. -/
def mapValue {α β : Type} (f : α → β) (c : Completion α) :
    Completion β :=
  c.map fun c => ⟨c.value.map f, c.errors, c.notices⟩

/- Complete the members of a list in order. -/
def traverse {α β : Type} (f : α → Completion β) :
    List α → Completion (List β)
| [] => done []
| a :: rest =>
    (f a).andThen fun b =>
      (traverse f rest).mapValue fun bs => b :: bs

/- End an error at a place that admits null. -/
def nullify (type : TypeRef) (c : Completion Json) :
    Completion Json :=
  c.map fun c =>
    match c.value with
    | some _ => c
    | none =>
        if type.nullable then
          { c with value := some .null }
        else
          c

end Completion

------------------------------------------------------------
-- Values
------------------------------------------------------------

/- What stays the same while an operation is executed. -/
structure ExecutionContext where
  schema : Schema
  hooks : Hooks
  document : ExecutableDocument
  operationName : Option String
  rootValue : Json
  bindings : Entries Json
  resolver : Option Hook
  fuel : Nat

/- How the selections of an object are executed. -/
abbrev SelectionExecutor :=
  List PathSegment → ObjectType → Json → List Selection →
    Completion (List (String × Json))

namespace ExecutionContext

/- An error of a field, at the first of its nodes. -/
def fault {α : Type}
    (group : FieldGroup)
    (path : List PathSegment)
    (fault : FieldFault) : Completion α :=
  .fail ⟨fault, path, group.first.head.position⟩

/- Complete an object, given its type. -/
def completeObject
    (execute : SelectionExecutor)
    (group : FieldGroup)
    (path : List PathSegment)
    (type : ObjectType)
    (value : Json) : Completion Json :=
  let selections := group.nodes.flatMap FieldNode.selections
  (execute path type value selections).mapValue Json.object

/- Complete a value of a named type that is not null. -/
def completeNamed
    (self : ExecutionContext)
    (execute : SelectionExecutor)
    (info : ResolveInfo)
    (group : FieldGroup)
    (path : List PathSegment)
    (name : String)
    (value : Json) : Completion Json :=
  match self.schema.lookup name with
  | none => fault group path (.undefinedType name)
  | some (.defined (.inputObject type)) =>
      fault group path (.inputType type.name)
  | some (.defined (.object type)) =>
      let accepted :=
        match type.isTypeOf with
        | some hook => self.hooks.isTypeOf hook value info
        | none => true
      if accepted then
        completeObject execute group path type value
      else
        fault group path (.notInstance type.name value.text)
  | some type =>
      if type.isAbstract then
        let (result, notices) :=
          AbstractType.resolve self.schema self.hooks type value
            info
        .noting notices <|
          match result with
          | .ok object =>
              completeObject execute group path object value
          | .error error =>
              fault group path (.abstractType error)
      else
        match type.serialize value with
        | .ok value => .done value
        | .error error => fault group path (.leaf error)

/- Complete a value of a type. -/
def completeValue
    (self : ExecutionContext)
    (execute : SelectionExecutor)
    (info : ResolveInfo)
    (group : FieldGroup) :
    TypeRef → List PathSegment → Json → Completion Json
| .named name nullable _, path, value =>
    if value.isNull then
      if nullable then
        .done .null
      else
        fault group path (.null info.parent.name info.field.name)
    else
      self.completeNamed execute info group path name value
| .list inner nullable _, path, value =>
    match value with
    | .null =>
        if nullable then
          .done .null
        else
          fault group path
            (.null info.parent.name info.field.name)
    | .array items =>
        let completeItem (item : Json × Nat) :=
          Completion.nullify inner
            (completeValue self execute info group inner
              (path ++ [.index item.2]) item.1)
        (Completion.traverse completeItem items.zipIdx).mapValue
          Json.array
    | _ =>
        fault group path
          (.notList info.parent.name info.field.name)

------------------------------------------------------------
-- Fields
------------------------------------------------------------

/- The value of the member named like the field. -/
def member (source : Json) (field : OutputField) : Resolution :=
  ⟨.ok ((source.get? field.name).getD .null), []⟩

/-
  Resolve a field by its own resolver, else by that of its
  type, else by that of the request, else by its name.
-/
def resolve
    (self : ExecutionContext)
    (info : ResolveInfo)
    (source : Json)
    (arguments : Entries Json) : Resolution :=
  let hook? :=
    (info.field.resolver.or info.parent.shape.resolveField).or
      self.resolver
  match hook? with
  | some hook => self.hooks.resolve hook source arguments info
  | none => member source info.field

/- What hooks are told about a field. -/
def info
    (self : ExecutionContext)
    (path : List PathSegment)
    (parent : ObjectType)
    (field : OutputField)
    (group : FieldGroup) : ResolveInfo where
  schema := self.schema
  parent := parent
  field := field
  nodes := group.nodes
  path := path
  operationName := self.operationName
  rootValue := self.rootValue
  bindings := self.bindings

/- Execute a field of an object. -/
def executeField
    (self : ExecutionContext)
    (execute : SelectionExecutor)
    (path : List PathSegment)
    (parent : ObjectType)
    (source : Json)
    (field : OutputField)
    (group : FieldGroup) : Completion Json :=
  let info := self.info path parent field group
  let arguments :=
    (Coercion.arguments self.schema self.bindings self.fuel
      field group.first.head.arguments).run
  Completion.nullify field.type <|
    match arguments with
    | none => none
    | some (.error error) => fault group path (.argument error)
    | some (.ok arguments) =>
        let resolution := self.resolve info source arguments
        .noting (resolution.events.map Notice.event) <|
          match resolution.result with
          | .error message =>
              fault group path (.resolver message)
          | .ok value =>
              self.completeValue execute info group field.type
                path value

/- The entry of a group; fields that do not exist have none. -/
def executeGroup
    (self : ExecutionContext)
    (execute : SelectionExecutor)
    (path : List PathSegment)
    (parent : ObjectType)
    (source : Json)
    (group : FieldGroup) : Completion (Option (String × Json)) :=
  let name := group.first.head.name
  if name = "__typename" then
    .done (some (group.key, .string parent.name))
  else
    match parent.field? name with
    | none => .done none
    | some field =>
        let path := path ++ [.key group.key]
        let value :=
          self.executeField execute path parent source field
            group
        value.mapValue fun value => some (group.key, value)

/- The groups of fields that selections select. -/
def collect
    (self : ExecutionContext)
    (object : ObjectType)
    (selections : List Selection) : List FieldGroup :=
  let collector : Collector :=
    ⟨self.schema, self.document, self.bindings, object⟩
  collector.collect selections

/- Execute the selections of an object. -/
def executeSelections (self : ExecutionContext) :
    Nat → SelectionExecutor
| 0, _, _, _, _ => none
| fuel + 1, path, object, source, selections =>
    let executeOne :=
      self.executeGroup (executeSelections self fuel) path object
        source
    (Completion.traverse executeOne
        (self.collect object selections)).mapValue
      fun entries => entries.filterMap id

end ExecutionContext

end GraphQL
