import GraphQL.TypeSystem.Graph

/-
  What is wrong with a type taken by itself.

  A type needs members, every member is filed under its own
  name, and names are well formed and not reserved. The values
  of an enum have distinct names.

  Key definitions include:
    * `TypeDef.flaw?`
    * `TypeGraph.flawed?`
-/

------------------------------------------------------------
-- Members
------------------------------------------------------------

namespace GraphQL

namespace TypeFlaw

/- What is wrong with the name of a member. -/
def ofName? (role : MemberRole) (key name : String) :
    Option TypeFlaw :=
  if key ≠ name then
    some (.misfiled role key name)
  else if !Name.isValid name || Name.isReserved name then
    some (.memberName role name)
  else
    none

/- The first flaw of a field and its arguments. -/
def ofField? (key : String) (field : OutputField) :
    Option TypeFlaw :=
  (ofName? .field key field.name).or
    (field.arguments.findSome? fun entry =>
      ofName? (.argument key) entry.1 entry.2.name)

/- The first flaw of the fields of an object or interface. -/
def ofFields? (fields : Entries OutputField) :
    Option TypeFlaw :=
  if fields.isEmpty then
    some .noFields
  else
    fields.findSome? fun entry => ofField? entry.1 entry.2

/- The first flaw of the fields of an input object. -/
def ofInputFields? (fields : Entries InputValue) :
    Option TypeFlaw :=
  if fields.isEmpty then
    some .noFields
  else
    fields.findSome? fun entry =>
      ofName? .field entry.1 entry.2.name

/- Names that stand for other values than those of enums. -/
def isLiteralWord (name : String) : Bool :=
  ["true", "false", "null"].contains name

/- The first flaw of names that follow the names seen before. -/
def ofValueNames? (seen : List String) :
    List String → Option TypeFlaw
| [] => none
| name :: rest =>
    if !Name.isValid name || isLiteralWord name then
      some (.valueName name)
    else if seen.contains name then
      some (.repeatedValue name)
    else
      ofValueNames? (name :: seen) rest

/- The first flaw of the values of an enum. -/
def ofValues? (values : List EnumValue) : Option TypeFlaw :=
  if values.isEmpty then
    some .noValues
  else
    ofValueNames? [] (values.map EnumValue.name)

end TypeFlaw

------------------------------------------------------------
-- Types
------------------------------------------------------------

/- The first flaw of a type. -/
def TypeDef.flaw? : TypeDef → Option TypeFlaw
| object type => TypeFlaw.ofFields? type.shape.fields
| interface type => TypeFlaw.ofFields? type.shape.fields
| union type =>
    if type.members.isEmpty then some .noMembers else none
| enum type => TypeFlaw.ofValues? type.values
| scalar _ => none
| inputObject type => TypeFlaw.ofInputFields? type.fields

/- The failure of a flawed type; built-in scalars have none. -/
def NamedType.flawed? : NamedType → Option BuildError
| builtin _ => none
| defined type =>
    type.flaw?.map fun flaw =>
      .flawedType type.kind type.name flaw

/- The failure of the first flawed type of a graph. -/
def TypeGraph.flawed? (graph : TypeGraph) :
    Option BuildError :=
  graph.types.findSome? NamedType.flawed?

end GraphQL
