import GraphQL.TypeSystem.Leaf

/-
  Problems of a type graph as a whole.

  They are collected, not raised: a graph reports all of them.

  Key definitions include:
    * `TypeError`, `TypeError.message`
-/

------------------------------------------------------------
-- Causes
------------------------------------------------------------

namespace GraphQL

/- A problem that involves more than one type. -/
inductive TypeError where
  /- Required input fields that lead back to where they start. -/
  | inputCycle (path : List String)
  | implementsOtherKind
      (location : SourceLocation)
      (type other : String)
  | implementsUndefined
      (location : SourceLocation)
      (type interface : String)
  | inputFieldOfOutputType
      (location : SourceLocation)
      (parent field type : String)
  | outputFieldOfInputType
      (location : SourceLocation)
      (parent field type : String)
  | argumentOfOutputType
      (location : SourceLocation)
      (argument type : String)
  /- An argument differs in type from that of the interface. -/
  | argumentType
      (location : SourceLocation)
      (type field interface argument : String)
      (expected found : TypeRef)
  /- The type of a field is no subtype of what is expected. -/
  | fieldType
      (location : SourceLocation)
      (type field interface : String)
      (expected found : TypeRef)
  | extraArgument
      (location : SourceLocation)
      (type field interface argument : String)
  | memberKind
      (location : SourceLocation)
      (union member : String)
      (kind : TypeKind)
  | missingField
      (location : SourceLocation)
      (type field interface : String)
  | missingArgument
      (location : SourceLocation)
      (type field interface argument : String)
  /- An interface is implemented only indirectly. -/
  | missingInterface
      (location : SourceLocation)
      (type : String)
      (path : List String)
      (interface : String)
  | undefinedType
      (location : SourceLocation)
      (name : String)
  deriving DecidableEq, Repr, Inhabited

------------------------------------------------------------
-- Messages
------------------------------------------------------------

namespace TypeError

/- A chain of interfaces in words. -/
def pathText (path : List String) : String :=
  " which implements ".intercalate
    (path.map fun name => s!"the `{name}` interface")

/- The message of a problem. -/
def message : TypeError → String
| inputCycle path =>
    "Input object fields may declare their types as a " ++
    "reference to an input object type only if it does not " ++
    "create a circular chain of types that cannot be broken " ++
    "with at least one nullable field. Unbroken input-object " ++
    "cycle found: " ++ " -> ".intercalate path
| implementsOtherKind _ type other =>
    s!"The `{type}` type declares that it implements " ++
    s!"`{other}`, but `{other}` is not an interface type"
| implementsUndefined _ type interface =>
    s!"The `{type}` type declares that it implements " ++
    s!"`{interface}`, but no such interface is defined"
| inputFieldOfOutputType _ parent field type =>
    "Input fields can not be declared with a non-input type: " ++
    s!"The `{parent}.{field}` field is an input field, but " ++
    s!"the `{type}` type is a non-input type."
| outputFieldOfInputType _ parent field type =>
    "Output fields can not be declared with an input type: " ++
    s!"The `{parent}.{field}` field is an output field, but " ++
    s!"the `{type}` type is an input-type"
| argumentOfOutputType _ argument type =>
    "Parameters can only be declared with input-compatible " ++
    s!"types: The `{argument}` parameter was declared with " ++
    s!"the `{type}` type, which is not an input-compatible type."
| argumentType _ type field interface argument expected found =>
    let expected := expected.text
    let found := found.text
    s!"Invalid parameter type: The `{type}.{field}` field " ++
    s!"defines the `{argument}` parameter with a type of " ++
    s!"`{found}`, but `{interface}.{field}` defines this " ++
    s!"parameter with type `{expected}`"
| fieldType _ type field interface expected found =>
    let expected := expected.text
    let found := found.text
    "Invalid interface-specified field type: The " ++
    s!"`{type}.{field}` field's type is defined as " ++
    s!"`{found}` which is incompatible with " ++
    s!"`{interface}.{field}` whose type is defined as " ++
    s!"`{expected}`."
| extraArgument _ type field interface argument =>
    "Additional parameters defined on interface-specified " ++
    s!"fields must not be required: `{type}.{field}` requires " ++
    s!"`{argument}`, which `{interface}.{field}` does not define"
| memberKind _ union member kind =>
    let kind := kind.name
    s!"Invalid union member type: The `{union}` type defines " ++
    s!"one of its members as `{member}`, but this type is a " ++
    s!"{kind} type and union members can only be object types."
| missingField _ type field interface =>
    s!"The `{type}` type implements the `{interface}` " ++
    s!"interface, but does not define a field named `{field}`"
| missingArgument _ type field interface argument =>
    s!"The `{type}` type implements the `{interface}` " ++
    s!"interface which defines a `{argument}` parameter on " ++
    s!"the `{field}` field, but `{type}` has no `{argument}` " ++
    s!"parameter defined on `{type}.{field}`"
| missingInterface _ type path interface =>
    let path := pathText path
    s!"The `{type}` type implements {path}, therefore " ++
    s!"`{type}` must also implement `{interface}`"
| undefinedType _ name =>
    s!"There is no type defined with the name `{name}`"

end TypeError

end GraphQL
