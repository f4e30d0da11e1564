import GraphQL.TypeSystem.TypeError
import GraphQL.Document.Executable

/-
  Reasons for which a schema can not be built.

  Key definitions include:
    * `TypeFlaw`: what a single type gets wrong
    * `ProtectedPart`: what a decorator may not change
    * `RootReference`
    * `BuildError`, `BuildError.message`
-/

------------------------------------------------------------
-- Flaws Of Single Types
------------------------------------------------------------

namespace GraphQL

/- A member of a type that has a name of its own. -/
inductive MemberRole where
  | field
  | argument (owner : String)
  deriving DecidableEq, Repr, Inhabited

/- A member role in words. -/
def MemberRole.words : MemberRole → String
| field => "field"
| argument owner => s!"argument on field `{owner}`"

/- What is wrong with a type taken by itself. -/
inductive TypeFlaw where
  | noFields
  | noMembers
  | noValues
  | misfiled (role : MemberRole) (key name : String)
  | memberName (role : MemberRole) (name : String)
  | valueName (name : String)
  | repeatedValue (name : String)
  deriving DecidableEq, Repr, Inhabited

/- A flaw in words, to be read after the name of the type. -/
def TypeFlaw.words : TypeFlaw → String
| noFields => "must define one or more fields"
| noMembers => "must define one or more member types"
| noValues => "must define one or more values"
| misfiled role key name =>
    let role := role.words
    s!"has a {role} registered as `{key}` but named `{name}`"
| memberName role name =>
    let role := role.words
    s!"has an invalid {role} name `{name}`"
| valueName name => s!"has an invalid value name `{name}`"
| repeatedValue name => s!"can include value `{name}` only once"

------------------------------------------------------------
-- Parts
------------------------------------------------------------

/- A part of a type or field that schema text settles. -/
inductive ProtectedPart where
  | kind
  | name
  | description
  | interfaces
  | members
  | values
  | fields
  | type
  | arguments
  | deprecation
  deriving DecidableEq, Repr, Inhabited

/- The name of a part. -/
def ProtectedPart.word : ProtectedPart → String
| kind => "kind"
| name => "name"
| description => "description"
| interfaces => "interfaces"
| members => "types"
| values => "values"
| fields => "fields"
| type => "type"
| arguments => "args"
| deprecation => "deprecation_reason"

/- A reference to a root operation type. -/
structure RootReference where
  type : String
  location : SourceLocation
  deriving DecidableEq, Repr, Inhabited

------------------------------------------------------------
-- Causes
------------------------------------------------------------

/- Why a schema can not be built or extended. -/
inductive BuildError where
  | fieldPartChanged (type field : String) (part : ProtectedPart)
  | typePartChanged (type : String) (part : ProtectedPart)
  | duplicateDirective
      (name : String)
      (first second : SourceLocation)
  | duplicateEnumValue
      (enum : String)
      (location first second : SourceLocation)
  | duplicateField
      (type field : String)
      (first second : SourceLocation)
  | duplicateInterface
      (type interface : String)
      (location : SourceLocation)
  | duplicateOperation
      (operation : OperationKind)
      (first second : RootReference)
  | duplicateType (type : String) (first second : SourceLocation)
  | duplicateMember
      (union member : String)
      (first second : SourceLocation)
  | enumWithoutValues (enum : String) (location : SourceLocation)
  | extensionOfUndefined
      (type : String)
      (location : SourceLocation)
  | unknownField (type field : String)
  | resolverReplaced (type field : String)
  | reservedDirective (name : String) (location : SourceLocation)
  | reservedField
      (type field : String)
      (location : SourceLocation)
  | reservedArgument
      (type field argument : String)
      (location : SourceLocation)
  | reservedType (type : String) (location : SourceLocation)
  | extensionOfOtherKind
      (type : String)
      (kind : TypeKind)
      (location : SourceLocation)
  | rootNotObject
      (operation : OperationKind)
      (type : String)
      (location : SourceLocation)
  | selfImplementation
      (interface : String)
      (location : SourceLocation)
  | typeName (type : String) (location : SourceLocation)
  | flawedType (kind : TypeKind) (type : String) (flaw : TypeFlaw)
  | noQueryType
  | sharedRoot
      (type : String)
      (first : OperationKind)
      (firstLocation : SourceLocation)
      (second : OperationKind)
      (secondLocation : SourceLocation)
  | unknownType (type : String)
  | unreadable (file : String)
  | builtinDirective (name : String) (location : SourceLocation)
  | schemaBlockInExtension (location : SourceLocation)
  | typeErrors (errors : List TypeError)
  deriving DecidableEq, Repr, Inhabited

------------------------------------------------------------
-- Messages
------------------------------------------------------------

namespace BuildError

/- A flaw with the type that has it. -/
def flawText (kind : TypeKind) (type : String)
    (flaw : TypeFlaw) : String :=
  let kind := kind.name
  let flaw := flaw.words
  s!"{kind} `{type}` {flaw}"

/- The message of a failure. -/
def message : BuildError → String
| fieldPartChanged type field part =>
    let part := part.word
    s!"The `{type}.{field}` field's `{part}` comes from schema " ++
    "text and can not be overwritten by a type config decorator"
| typePartChanged type part =>
    let part := part.word
    s!"The `{type}` type's `{part}` comes from schema text and " ++
    "can not be overwritten by a type config decorator"
| duplicateDirective name _ _ =>
    "Multiple directives were defined with the name " ++
    s!"`{name}`"
| duplicateEnumValue enum _ _ _ =>
    s!"The `{enum}` enum defines more than one value with the " ++
    "same name"
| duplicateField type field _ _ =>
    s!"The `{type}` type defines the `{field}` field more than " ++
    "once"
| duplicateInterface type interface _ =>
    s!"The `{type}` type declares that it implements the " ++
    s!"`{interface}` interface more than once"
| duplicateOperation operation _ _ =>
    let operation := operation.name
    s!"Multiple definitions of the {operation} root operation " ++
    "type were defined"
| duplicateType type _ _ =>
    s!"Multiple GraphQL types with the name `{type}` were defined"
| duplicateMember union member _ _ =>
    s!"The `{union}` union specifies `{member}` as a member " ++
    "more than once"
| enumWithoutValues _ _ =>
    "Enum types must define one or more unique values"
| extensionOfUndefined type _ =>
    s!"Attempted to extend the `{type}` type, which is not " ++
    "defined"
| unknownField type field =>
    s!"A type config decorator returned the `{type}.{field}` " ++
    "field, which is not defined in the schema"
| resolverReplaced type field =>
    s!"The `{type}.{field}` field already has a resolver from " ++
    "an earlier pass"
| reservedDirective _ _ =>
    "Custom directive names must not start with `__`"
| reservedField type field _ =>
    s!"Field names must not start with `__`: `{type}.{field}`"
| reservedArgument type field argument _ =>
    "Parameter names must not start with `__`: " ++
    s!"`{type}.{field}({argument})`"
| reservedType type _ =>
    s!"Type names must not start with `__`: `{type}`"
| extensionOfOtherKind type kind _ =>
    let kind := kind.name
    s!"Attempted to extend the `{type}` type using an " ++
    s!"extension of a different kind, but `{type}` is a " ++
    s!"{kind} type"
| rootNotObject operation type _ =>
    let operation := operation.name
    s!"The {operation} root operation type must be an object " ++
    s!"type, but `{type}` is not a defined object type"
| selfImplementation interface _ =>
    "Interface types may not declare that they implement " ++
    s!"themselves: The `{interface}` interface does just that"
| typeName type _ => s!"`{type}` is not a valid GraphQL name"
| flawedType kind type flaw => flawText kind type flaw
| noQueryType =>
    "Attempted to build a schema that has no Query operation " ++
    "type defined"
| sharedRoot _ first _ second _ =>
    let first := first.name
    let second := second.name
    s!"The {first} and {second} root operation are defined " ++
    "with the same GraphQL type, but this is not allowed in " ++
    "GraphQL. All root operations must be defined with " ++
    "different types."
| unknownType type =>
    "A type config decorator declared that it configures the " ++
    s!"`{type}` type, but no such type is defined or extended"
| unreadable _ => "Error parsing schema string"
| builtinDirective name _ =>
    s!"Attempted to redefine the builtin `@{name}` directive"
| schemaBlockInExtension _ =>
    "A `schema` definition can not appear in a schema extension"
| typeErrors errors =>
    "Encountered the following type-validation errors while " ++
    "building the schema:\n\n" ++
    "\n".intercalate
      (errors.map fun error => "  * " ++ error.message)

end BuildError

end GraphQL
