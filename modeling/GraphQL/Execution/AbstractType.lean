import GraphQL.Execution.Hooks
import GraphQL.Diagnostics

/-
  Resolution of abstract types: the object type of a value of
  an interface or union.

  A hook of the abstract type comes first, then the type name
  that the value carries, then the hooks of the possible types
  in order. The last step raises a diagnostic.

  Key definitions include:
    * `AbstractTypeError`
    * `AbstractType.resolve`
-/

------------------------------------------------------------
-- Causes
------------------------------------------------------------

namespace GraphQL

/- Why a value has no object type. -/
inductive AbstractTypeError where
  | noMatch (type parent field printed : String)
  | notAbstract (type : String)
  | notPossible (type resolved : String)
  deriving DecidableEq, Repr, Inhabited

/- The message of a failed resolution. -/
def AbstractTypeError.message : AbstractTypeError → String
| noMatch type parent field printed =>
    s!"Abstract type {type} must resolve to an Object type at " ++
    s!"runtime for field {parent}.{field} with value " ++
    s!"\"{printed}\", received \"null\". Either the {type} " ++
    "type should provide a \"resolveType\" function or each " ++
    "possible type should provide an \"isTypeOf\" function."
| notAbstract type =>
    s!"`{type}` is not an interface or union type"
| notPossible type resolved =>
    s!"Runtime Object type \"{resolved}\" is not a possible " ++
    s!"type for \"{type}\"."

namespace AbstractType

/- The warning that every possible type is asked. -/
def scanWarning : String :=
  "Switching to slow resolution method using isTypeOf of all " ++
  "possible implementations. It requires full schema scan " ++
  "and degrades query performance significantly. Make sure " ++
  "your resolveType always returns valid implementation or " ++
  "throws."

/- A diagnostic about asking every possible type. -/
def scanDiagnostic (message : String) : Diagnostic :=
  ⟨message ++ ". " ++ scanWarning, .fullSchemaScan, .warning⟩

/- The diagnostic of a hook that names no type. -/
def nullDiagnostic (type : NamedType) (value : Json) :
    Diagnostic :=
  let kind := type.kind.name
  let name := type.name
  let printed := value.text
  scanDiagnostic
    (s!"{kind} type {name} returned null from its " ++
      s!"resolveType function for value: {printed}")

/- The diagnostic of a type without a hook. -/
def absentDiagnostic (type : NamedType) : Diagnostic :=
  let kind := type.kind.name
  let name := type.name
  scanDiagnostic
    s!"{kind} type {name} does not provide a resolveType function"

------------------------------------------------------------
-- Resolution
------------------------------------------------------------

/- The report of a scan of possible types. -/
def scanEvent (type : NamedType) (found? : Option ObjectType) :
    Trace.Event :=
  ⟨.debug, "resolved abstract type by is_type_of scan",
    ("abstract_type", .text type.name) ::
      Trace.optional "resolved_type"
        (found?.map ObjectType.name)⟩

/- Ask each possible type whether it accepts a value. -/
def scan
    (hooks : Hooks)
    (type : NamedType)
    (candidates : List ObjectType)
    (value : Json)
    (info : ResolveInfo) :
    Except AbstractTypeError ObjectType × List Notice :=
  let found? := candidates.find? fun candidate =>
    match candidate.isTypeOf with
    | some hook => hooks.isTypeOf hook value info
    | none => false
  let result :=
    match found? with
    | some object => .ok object
    | none =>
        .error
          (.noMatch type.name info.parent.name info.field.name
            value.text)
  (result, [.event (scanEvent type found?)])

/- The object type of a value, given the hook of its type. -/
def resolveWith
    (schema : Schema)
    (hooks : Hooks)
    (type : NamedType)
    (hook? : Option Hook)
    (value : Json)
    (info : ResolveInfo) :
    Except AbstractTypeError ObjectType × List Notice :=
  let candidates := schema.possibleTypes type
  let possible? (name : String) :=
    candidates.find? fun candidate => candidate.name == name
  let scanAfter (notice : Notice) :=
    let (result, notices) :=
      scan hooks type candidates value info
    (result, notice :: notices)
  match hook? with
  | some hook =>
      match hooks.typeName hook value info with
      | some name =>
          match possible? name with
          | some object => (.ok object, [])
          | none => (.error (.notPossible type.name name), [])
      | none => scanAfter (.warn (nullDiagnostic type value))
  | none =>
      let named? := do
        let name ← (← value.get? "__typename").string?
        possible? name
      match named? with
      | some object => (.ok object, [])
      | none => scanAfter (.warnOnce (absentDiagnostic type))

/- The object type of a value of an abstract type. -/
def resolve
    (schema : Schema)
    (hooks : Hooks)
    (type : NamedType)
    (value : Json)
    (info : ResolveInfo) :
    Except AbstractTypeError ObjectType × List Notice :=
  match type with
  | .defined (.interface t) =>
      resolveWith schema hooks type t.resolveType value info
  | .defined (.union t) =>
      resolveWith schema hooks type t.resolveType value info
  | _ => (.error (.notAbstract type.name), [])

end AbstractType

end GraphQL
