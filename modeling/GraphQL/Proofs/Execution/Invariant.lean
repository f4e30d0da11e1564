import GraphQL.Execution.Request
import GraphQL.Proofs.Execution.Outcome
import GraphQL.Proofs.Schema.Built

/-
  Invariants of execution: what holds of all that values and
  objects are completed to if every rule of execution keeps it.

  Key definitions include:
    * `ExecutionContext.Yields`: the value of a field
    * `ExecutionContext.RuntimeType`: the object type of a value
    * `ExecutionContext.Faults`: why a value is not completed
    * `ExecutionContext.Invariant`
    * `Request.Start`: an operation that is executed

  Main declarations:
    * `ExecutionContext.Invariant.holds`
    * `Request.execute_cases`
    * `Request.refusal_or_start`, `Request.exists_start`
-/

------------------------------------------------------------
-- Rules
------------------------------------------------------------

namespace GraphQL

namespace ExecutionContext

open Completion

/- The arguments of a field are coerced to these. -/
def Coerces
    (self : ExecutionContext)
    (field : OutputField)
    (group : FieldGroup)
    (result : Except ArgumentError (Entries Json)) : Prop :=
  (Coercion.arguments self.schema self.bindings self.fuel field
    group.first.head.arguments).run = some result

/- The resolver of a field gives a value. -/
def Yields
    (self : ExecutionContext)
    (path : List PathSegment)
    (parent : ObjectType)
    (source : Json)
    (field : OutputField)
    (group : FieldGroup)
    (value : Json) : Prop :=
  ∃ arguments,
    self.Coerces field group (.ok arguments) ∧
      (self.resolve (self.info path parent field group) source
        arguments).result = .ok value

/- The object type that a value of a named type has. -/
inductive RuntimeType
    (self : ExecutionContext)
    (info : ResolveInfo)
    (name : String)
    (value : Json) : ObjectType → Prop where
  | object {type : ObjectType} :
      self.schema.lookup name = some (.defined (.object type)) →
      (∀ hook, type.isTypeOf = some hook →
        self.hooks.isTypeOf hook value info = true) →
      RuntimeType self info name value type
  | abstract {type : NamedType} {object : ObjectType} :
      self.schema.lookup name = some type →
      type.isAbstract = true →
      (AbstractType.resolve self.schema self.hooks type value
        info).1 = .ok object →
      RuntimeType self info name value object

/- Why a value is not completed as a type asks. -/
inductive Faults
    (self : ExecutionContext)
    (info : ResolveInfo) :
    TypeRef → Json → FieldFault → Prop where
  | null {type : TypeRef} :
      type.nullable = false →
      Faults self info type .null
        (.null info.parent.name info.field.name)
  | notList {inner : TypeRef} {nullable : Bool}
      {location : SourceLocation} {value : Json} :
      Faults self info (.list inner nullable location) value
        (.notList info.parent.name info.field.name)
  | undefinedType {name : String} {nullable : Bool}
      {location : SourceLocation} {value : Json} :
      self.schema.lookup name = none →
      Faults self info (.named name nullable location) value
        (.undefinedType name)
  | inputType {name : String} {nullable : Bool}
      {location : SourceLocation} {value : Json}
      {type : InputObjectType} :
      self.schema.lookup name =
        some (.defined (.inputObject type)) →
      Faults self info (.named name nullable location) value
        (.inputType type.name)
  | notInstance {name : String} {nullable : Bool}
      {location : SourceLocation} {value : Json}
      {type : ObjectType} {hook : Hook} :
      self.schema.lookup name = some (.defined (.object type)) →
      type.isTypeOf = some hook →
      self.hooks.isTypeOf hook value info = false →
      Faults self info (.named name nullable location) value
        (.notInstance type.name value.text)
  | abstractType {name : String} {nullable : Bool}
      {location : SourceLocation} {value : Json}
      {type : NamedType} {error : AbstractTypeError} :
      self.schema.lookup name = some type →
      type.isAbstract = true →
      (AbstractType.resolve self.schema self.hooks type value
        info).1 = .error error →
      Faults self info (.named name nullable location) value
        (.abstractType error)
  | leaf {name : String} {nullable : Bool}
      {location : SourceLocation} {value : Json}
      {type : NamedType} {error : LeafError} :
      self.schema.lookup name = some type →
      type.isLeaf = true →
      type.serialize value = .error error →
      Faults self info (.named name nullable location) value
        (.leaf error)

/- What values of fields and items are completed to. -/
abbrev ValueProperty :=
  ResolveInfo → FieldGroup → TypeRef → List PathSegment →
    Json → Option Json → List FieldError → Prop

/- What objects are completed to. -/
abbrev ObjectProperty :=
  List PathSegment → ObjectType → Json → List Selection →
    Option (List (String × Json)) → List FieldError → Prop

/- What an item of a list gives. -/
inductive ItemOutcome
    (Value : ValueProperty)
    (info : ResolveInfo)
    (group : FieldGroup)
    (type : TypeRef)
    (path : List PathSegment)
    (item : Json × Nat) :
    Option Json → List FieldError → Prop where
  | intro {value? : Option Json} {errors : List FieldError} :
      Value info group type (path ++ [.index item.2]) item.1
        value? errors →
      ItemOutcome Value info group type path item
        (settled type value?) errors

/- What a field gives before a null may take its place. -/
inductive FieldOutcome
    (Value : ValueProperty)
    (self : ExecutionContext)
    (path : List PathSegment)
    (parent : ObjectType)
    (source : Json)
    (field : OutputField)
    (group : FieldGroup) :
    Option Json → List FieldError → Prop where
  | argument {error : ArgumentError} :
      self.Coerces field group (.error error) →
      FieldOutcome Value self path parent source field group none
        [⟨.argument error, path, group.first.head.position⟩]
  | resolver {arguments : Entries Json} {message : String} :
      self.Coerces field group (.ok arguments) →
      (self.resolve (self.info path parent field group) source
        arguments).result = .error message →
      FieldOutcome Value self path parent source field group none
        [⟨.resolver message, path, group.first.head.position⟩]
  | value {value : Json} {value? : Option Json}
      {errors : List FieldError} :
      self.Yields path parent source field group value →
      Value (self.info path parent field group) group field.type
        path value value? errors →
      FieldOutcome Value self path parent source field group
        value? errors

/- What a group gives: an entry unless its field is unknown. -/
inductive GroupOutcome
    (Value : ValueProperty)
    (self : ExecutionContext)
    (path : List PathSegment)
    (parent : ObjectType)
    (source : Json)
    (group : FieldGroup) :
    Option (Option (String × Json)) → List FieldError →
      Prop where
  | typename :
      group.first.head.name = "__typename" →
      GroupOutcome Value self path parent source group
        (some (some (group.key, .string parent.name))) []
  | unknown :
      group.first.head.name ≠ "__typename" →
      parent.field? group.first.head.name = none →
      GroupOutcome Value self path parent source group
        (some none) []
  | field {field : OutputField} {value? : Option Json}
      {errors : List FieldError} :
      group.first.head.name ≠ "__typename" →
      parent.field? group.first.head.name = some field →
      FieldOutcome Value self (path ++ [.key group.key]) parent
        source field group value? errors →
      GroupOutcome Value self path parent source group
        ((settled field.type value?).map fun value =>
          some (group.key, value))
        errors

/- Properties that every rule of execution keeps. -/
structure Invariant
    (context : ExecutionContext)
    (Value : ValueProperty)
    (Object : ObjectProperty) : Prop where
  null {info : ResolveInfo} {group : FieldGroup}
      {type : TypeRef} {path : List PathSegment} :
    type.nullable = true →
    Value info group type path .null (some .null) []
  fault {info : ResolveInfo} {group : FieldGroup}
      {type : TypeRef} {path : List PathSegment} {value : Json}
      {fault : FieldFault} :
    context.Faults info type value fault →
    Value info group type path value none
      [⟨fault, path, group.first.head.position⟩]
  leaf {info : ResolveInfo} {group : FieldGroup}
      {name : String} {nullable : Bool}
      {location : SourceLocation} {path : List PathSegment}
      {value result : Json} {type : NamedType} :
    value.isNull = false →
    context.schema.lookup name = some type →
    type.isLeaf = true →
    type.serialize value = .ok result →
    Value info group (.named name nullable location) path value
      (some result) []
  list {info : ResolveInfo} {group : FieldGroup}
      {inner : TypeRef} {nullable : Bool}
      {location : SourceLocation} {path : List PathSegment}
      {items : List Json} {results? : Option (List Json)}
      {errors : List FieldError} :
    Traversed (ItemOutcome Value info group inner path)
      items.zipIdx results? errors →
    Value info group (.list inner nullable location) path
      (.array items) (results?.map Json.array) errors
  object {info : ResolveInfo} {group : FieldGroup}
      {name : String} {nullable : Bool}
      {location : SourceLocation} {path : List PathSegment}
      {value : Json} {type : ObjectType}
      {entries? : Option (List (String × Json))}
      {errors : List FieldError} :
    value.isNull = false →
    context.RuntimeType info name value type →
    Object path type value
      (group.nodes.flatMap FieldNode.selections) entries?
      errors →
    Value info group (.named name nullable location) path value
      (entries?.map Json.object) errors
  groups {path : List PathSegment} {type : ObjectType}
      {source : Json} {selections : List Selection}
      {entries? : Option (List (Option (String × Json)))}
      {errors : List FieldError} :
    Traversed (GroupOutcome Value context path type source)
      (context.collect type selections) entries? errors →
    Object path type source selections
      (entries?.map fun entries => entries.filterMap id) errors

------------------------------------------------------------
-- Runs
------------------------------------------------------------

namespace Invariant

variable {self : ExecutionContext}
variable {Value : ValueProperty} {Object : ObjectProperty}
variable {execute : SelectionExecutor}

/- A leaf that is neither an object nor an input object. -/
private theorem isLeaf_of_not_composite
    {type : NamedType}
    (hInput : ∀ t, type ≠ .defined (.inputObject t))
    (hObject : ∀ t, type ≠ .defined (.object t))
    (hAbstract : ¬ type.isAbstract = true) :
    type.isLeaf = true := by
  cases type with
  | builtin scalar => rfl
  | defined type =>
      cases type with
      | object t => exact absurd rfl (hObject t)
      | inputObject t => exact absurd rfl (hInput t)
      | interface t => exact absurd rfl hAbstract
      | union t => exact absurd rfl hAbstract
      | enum t => rfl
      | scalar t => rfl

variable (hInvariant : self.Invariant Value Object)

include hInvariant

/- A null keeps to the rules, or it is at fault. -/
theorem completeNull
    {info : ResolveInfo}
    {group : FieldGroup}
    {type : TypeRef}
    {path : List PathSegment}
    {value? : Option Json}
    {errors : List FieldError}
    (h :
      Gives
        (if type.nullable then
          .done .null
        else
          ExecutionContext.fault group path
            (.null info.parent.name info.field.name))
        value? errors) :
    Value info group type path .null value? errors := by
  split at h
  · next hNullable =>
      rcases (gives_done _ _ _).1 h with ⟨rfl, rfl⟩
      exact hInvariant.null hNullable
  · next hNullable =>
      rcases (gives_fail _ _ _).1 h with ⟨rfl, rfl⟩
      exact hInvariant.fault (.null (by simpa using hNullable))

section Inner

-- Selections within a value are executed by the rules.
variable
    (hExecute :
      ∀ path type source selections entries? errors,
        Gives (execute path type source selections) entries?
          errors →
        Object path type source selections entries? errors)

include hExecute

/- Values of named types keep to the rules. -/
theorem completeNamed
    {info : ResolveInfo}
    {group : FieldGroup}
    {path : List PathSegment}
    {name : String}
    {nullable : Bool}
    {location : SourceLocation}
    {value : Json}
    {value? : Option Json}
    {errors : List FieldError}
    (hValue : value.isNull = false)
    (h :
      Gives
        (self.completeNamed execute info group path name value)
        value? errors) :
    Value info group (.named name nullable location) path value
      value? errors := by
  have hFault : ∀ fault,
      self.Faults info (.named name nullable location) value
        fault →
      Gives (ExecutionContext.fault group path fault) value?
        errors →
      Value info group (.named name nullable location) path value
        value? errors := by
    intro fault hFault hGives
    rcases (gives_fail _ _ _).1 hGives with ⟨rfl, rfl⟩
    exact hInvariant.fault hFault
  have hObject : ∀ type,
      self.RuntimeType info name value type →
      Gives (completeObject execute group path type value) value?
        errors →
      Value info group (.named name nullable location) path value
        value? errors := by
    intro type hType hGives
    rcases (gives_mapValue _ _ _ _).1 hGives with
      ⟨entries?, hEntries, rfl⟩
    exact hInvariant.object hValue hType
      (hExecute _ _ _ _ _ _ hEntries)
  simp only [ExecutionContext.completeNamed] at h
  split at h
  · next hLookup => exact hFault _ (.undefinedType hLookup) h
  · next type hLookup => exact hFault _ (.inputType hLookup) h
  · next type hLookup =>
      cases hHook : type.isTypeOf with
      | none =>
          simp only [hHook, if_true] at h
          exact hObject _
            (.object hLookup (by simp [hHook])) h
      | some hook =>
          simp only [hHook] at h
          split at h
          · next hAccepts =>
              exact hObject _
                (.object hLookup (by simpa [hHook])) h
          · next hAccepts =>
              exact hFault _
                (.notInstance hLookup hHook
                  (by simpa using hAccepts)) h
  · next type hInput hObjectType hLookup =>
      split at h
      · next hAbstract =>
          rw [gives_noting] at h
          split at h
          · next object hResolve =>
              exact hObject _
                (.abstract hLookup hAbstract hResolve) h
          · next error hResolve =>
              exact hFault _
                (.abstractType hLookup hAbstract hResolve) h
      · next hAbstract =>
          have hLeaf :=
            isLeaf_of_not_composite hInput hObjectType hAbstract
          split at h
          · next result hSerialize =>
              rcases (gives_done _ _ _).1 h with ⟨rfl, rfl⟩
              exact hInvariant.leaf hValue hLookup hLeaf
                hSerialize
          · next error hSerialize =>
              exact hFault _ (.leaf hLookup hLeaf hSerialize) h

/- Values keep to the rules, by induction on their type. -/
theorem completeValue
    {info : ResolveInfo}
    {group : FieldGroup}
    {type : TypeRef}
    {path : List PathSegment}
    {value : Json}
    {value? : Option Json}
    {errors : List FieldError}
    (h :
      Gives (self.completeValue execute info group type path value)
        value? errors) :
    Value info group type path value value? errors := by
  induction type generalizing path value value? errors with
  | named name nullable location =>
      rw [ExecutionContext.completeValue] at h
      split at h
      · next hNull =>
          have hValue : value = .null := by
            cases value <;> simp [Json.isNull] at hNull ⊢
          subst hValue
          exact hInvariant.completeNull h
      · next hNull =>
          exact hInvariant.completeNamed hExecute
            (by simpa using hNull) h
  | list inner nullable location ih =>
      rw [ExecutionContext.completeValue.eq_def] at h
      simp only at h
      split at h
      · exact hInvariant.completeNull h
      · next items =>
          rcases (gives_mapValue _ _ _ _).1 h with
            ⟨results?, hResults, rfl⟩
          refine hInvariant.list (gives_traverse ?_ hResults)
          intro item hItem item? itemErrors hGives
          rcases (gives_nullify _ _ _ _).1 hGives with
            ⟨before?, hBefore, rfl⟩
          exact .intro (ih hBefore)
      · rcases (gives_fail _ _ _).1 h with ⟨rfl, rfl⟩
        exact hInvariant.fault .notList

/- Fields keep to the rules. -/
theorem executeField
    {path : List PathSegment}
    {parent : ObjectType}
    {source : Json}
    {field : OutputField}
    {group : FieldGroup}
    {value? : Option Json}
    {errors : List FieldError}
    (h :
      Gives
        (self.executeField execute path parent source field group)
        value? errors) :
    ∃ before?,
      FieldOutcome Value self path parent source field group
          before? errors ∧
        value? = settled field.type before? := by
  rw [ExecutionContext.executeField] at h
  rcases (gives_nullify _ _ _ _).1 h with
    ⟨before?, hBefore, rfl⟩
  refine ⟨before?, ?_, rfl⟩
  split at hBefore
  · exact absurd hBefore (not_gives_none _ _)
  · next error hArguments =>
      rcases (gives_fail _ _ _).1 hBefore with ⟨rfl, rfl⟩
      exact .argument hArguments
  · next arguments hArguments =>
      rw [gives_noting] at hBefore
      split at hBefore
      · next message hResult =>
          rcases (gives_fail _ _ _).1 hBefore with ⟨rfl, rfl⟩
          exact .resolver hArguments hResult
      · next value hResult =>
          exact .value ⟨arguments, hArguments, hResult⟩
            (hInvariant.completeValue hExecute hBefore)

/- Groups keep to the rules. -/
theorem executeGroup
    {path : List PathSegment}
    {parent : ObjectType}
    {source : Json}
    {group : FieldGroup}
    {slot? : Option (Option (String × Json))}
    {errors : List FieldError}
    (h :
      Gives (self.executeGroup execute path parent source group)
        slot? errors) :
    GroupOutcome Value self path parent source group slot?
      errors := by
  simp only [ExecutionContext.executeGroup] at h
  split at h
  · next hName =>
      rcases (gives_done _ _ _).1 h with ⟨rfl, rfl⟩
      exact .typename hName
  · next hName =>
      split at h
      · next hField =>
          rcases (gives_done _ _ _).1 h with ⟨rfl, rfl⟩
          exact .unknown hName hField
      · next field hField =>
          rcases (gives_mapValue _ _ _ _).1 h with
            ⟨value?, hValue, rfl⟩
          rcases hInvariant.executeField hExecute hValue with
            ⟨before?, hBefore, rfl⟩
          exact .field hName hField hBefore

end Inner

/- What every rule keeps holds of all that is executed. -/
theorem holds
    {fuel : Nat}
    {path : List PathSegment}
    {type : ObjectType}
    {source : Json}
    {selections : List Selection}
    {entries? : Option (List (String × Json))}
    {errors : List FieldError}
    (h :
      Gives
        (self.executeSelections fuel path type source selections)
        entries? errors) :
    Object path type source selections entries? errors := by
  induction fuel generalizing path type source selections
    entries? errors with
  | zero => exact absurd h (not_gives_none _ _)
  | succ fuel ih =>
      rw [executeSelections] at h
      rcases (gives_mapValue _ _ _ _).1 h with
        ⟨outcomes?, hOutcomes, rfl⟩
      refine hInvariant.groups (gives_traverse ?_ hOutcomes)
      intro group hGroup slot? groupErrors hGives
      exact hInvariant.executeGroup
        (fun _ _ _ _ _ _ hInner => ih hInner) hGives

end Invariant

end ExecutionContext

------------------------------------------------------------
-- Requests
------------------------------------------------------------

namespace Request

/-
  An operation that is executed: the selected one, with its
  coerced variables and its root type.
-/
structure Start
    (request : Request)
    (schema : Schema)
    (fuel : Nat)
    (document : ExecutableDocument) where
  operation : Operation
  bindings : Entries Json
  root : ObjectType
  select_eq :
    request.select document.operations = .ok operation
  bindings_eq :
    (Coercion.bindings schema fuel request.bindings
      operation.definitions).run = some (.ok bindings)
  root_eq : rootType schema operation = .ok root

variable {request : Request} {schema : Schema} {fuel : Nat}
variable {document : ExecutableDocument}

/- The context in which an operation is executed. -/
def Start.context
    (start : Start request schema fuel document)
    (hooks : Hooks) : ExecutionContext :=
  request.context schema hooks fuel document start.operation
    start.bindings

/-
  Before its hooks are asked, a request runs out of fuel, or is
  refused, or starts to execute the selections of an operation.
-/
theorem execute_cases
    (request : Request)
    (schema : Schema)
    (fuel : Nat)
    (document : ExecutableDocument) :
    (∀ hooks,
      request.execute schema hooks fuel document = none) ∨
    (∃ errors, ∀ hooks,
      request.execute schema hooks fuel document =
        some (.refusal errors)) ∨
    ∃ start : Start request schema fuel document, ∀ hooks,
      request.execute schema hooks fuel document =
        ((start.context hooks).executeSelections fuel []
          start.root request.rootValue
          start.operation.selections).map
            (run start.operation) := by
  unfold execute
  cases hSelect : request.select document.operations with
  | error error => exact .inr (.inl ⟨[error], fun _ => rfl⟩)
  | ok operation =>
      simp only [Option.bind_eq_bind]
      cases hBindings : (Coercion.bindings schema fuel
          request.bindings operation.definitions).run with
      | none => exact .inl fun _ => rfl
      | some result =>
          simp only [Option.bind_some]
          cases result with
          | error errors => exact .inr (.inl ⟨_, fun _ => rfl⟩)
          | ok bindings =>
              simp only
              cases hRoot : rootType schema operation with
              | error error =>
                  exact .inr (.inl ⟨[error], fun _ => rfl⟩)
              | ok root =>
                  refine .inr (.inr
                    ⟨⟨operation, bindings, root, hSelect,
                      hBindings, hRoot⟩, ?_⟩)
                  intro hooks
                  rw [Option.map_eq_bind]
                  rfl

/- A run is a refusal, or executes the selections of a start. -/
theorem refusal_or_start
    {hooks : Hooks}
    {answer : Run}
    (h :
      request.execute schema hooks fuel document = some answer) :
    (∃ errors, answer = .refusal errors) ∨
      ∃ (start : Start request schema fuel document)
        (outcome : Completed (List (String × Json))),
        (start.context hooks).executeSelections fuel []
            start.root request.rootValue
            start.operation.selections =
          some outcome ∧
        answer = run start.operation outcome := by
  rcases execute_cases request schema fuel document with
    hNone | ⟨errors, hRefusal⟩ | ⟨start, hStart⟩
  · rw [hNone] at h
    cases h
  · rw [hRefusal] at h
    cases h
    exact .inl ⟨errors, rfl⟩
  · rw [hStart] at h
    rcases Option.map_eq_some_iff.1 h with
      ⟨outcome, hOutcome, hRun⟩
    exact .inr ⟨start, outcome, hOutcome, hRun.symm⟩

/- A run that has data executed the selections of a start. -/
theorem exists_start
    {hooks : Hooks}
    {answer : Run}
    {data : Json}
    (h : request.execute schema hooks fuel document = some answer)
    (hData : answer.response.data = some data) :
    ∃ (start : Start request schema fuel document)
      (outcome : Completed (List (String × Json))),
      (start.context hooks).executeSelections fuel [] start.root
          request.rootValue start.operation.selections =
        some outcome ∧
      answer = run start.operation outcome := by
  rcases refusal_or_start h with ⟨errors, rfl⟩ | hStart
  · exact absurd hData
      (by simp [Run.refusal, Response.refusal])
  · exact hStart

end Request

------------------------------------------------------------
-- A Catalogue
------------------------------------------------------------

namespace Catalogue

/- Hooks that answer nothing. -/
def hooks : Hooks where
  resolve _ _ _ _ := .value .null
  isTypeOf _ _ _ := false
  typeName _ _ _ := none

/- A selected field without arguments. -/
def select (name : String) (selections : List Selection) :
    Selection :=
  .field ⟨position, none, name, [], []⟩ selections

/- The operation that asks for all items. -/
def operation : Operation where
  kind := .query
  position := position
  name := none
  definitions := []
  annotations := []
  selections :=
    [ select "items"
        [ select "__typename" [], select "title" [],
          .inline ⟨position, some "Book", []⟩
            [ select "pages" [],
              select "sequel" [select "title" []]]]]

/-
  The items are a book with a sequel, a book without a title,
  which every item has to have, and nothing.
-/
def request : Request where
  operationName := none
  bindings := []
  rootValue :=
    .object
      [("items",
        .array
          [ .object
              [ ("__typename", .string "Book"),
                ("title", .string "A"),
                ("pages", .array [.ofInt 7]),
                ("sequel",
                  .object
                    [ ("__typename", .string "Book"),
                      ("title", .string "B")])],
            .object [("__typename", .string "Book")],
            .null])]
  resolver := none

/- The answer: neither the second item nor the third. -/
def entries : List (String × Json) :=
  [("items",
    .array
      [ .object
          [ ("__typename", .string "Book"),
            ("title", .string "A"),
            ("pages", .array [.ofInt 7]),
            ("sequel", .object [("title", .string "B")])],
        .null,
        .null])]

/- The document of the request. -/
def requested : ExecutableDocument :=
  [.operation operation]

/- The run of the request. -/
def answer : Run :=
  (request.execute schema hooks 6 requested).getD (.refusal [])

end Catalogue

end GraphQL
