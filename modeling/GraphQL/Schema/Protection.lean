import GraphQL.TypeSystem.BuildError
import GraphQL.TypeSystem.Definition
import GraphQL.Schema.Decorator

/-
  Protection of declared types against decorators.

  A decorator keeps kind, name and members of a type. What
  stands in schema text keeps its description, its types and
  its arguments as well, and a resolver that a field has is
  kept by every later decorator.

  Key definitions include:
    * `Protection.check`
    * `Decorator.apply`
-/

------------------------------------------------------------
-- Fields
------------------------------------------------------------

namespace GraphQL

namespace Protection

/- Fail unless a condition holds. -/
def require (condition : Bool) (error : BuildError) :
    Except BuildError Unit :=
  if condition then .ok () else .error error

/- Same arguments in the same order. -/
def sameArguments : (a b : Entries InputValue) → Bool
| [], [] => true
| (name, a) :: as, (other, b) :: bs =>
    name == other && a.same b && sameArguments as bs
| _, _ => false

/- Check a declared field. -/
def checkDeclaredField
    (type name : String)
    (given decorated : OutputField) :
    Except BuildError Unit := do
  let changed := BuildError.fieldPartChanged type name
  require (given.name == decorated.name) (changed .name)
  require (given.type.same decorated.type) (changed .type)
  require
    (sameArguments given.arguments decorated.arguments)
    (changed .arguments)
  require
    (given.description == decorated.description)
    (changed .description)
  require
    (given.deprecation == decorated.deprecation)
    (changed .deprecation)

/- Check a field; a resolver it has may not be replaced. -/
def checkField
    (type name : String)
    (given decorated : OutputField) :
    Except BuildError Unit := do
  if given.location.isSdl then
    checkDeclaredField type name given decorated
  if given.resolver.isSome then
    require
      (decorated.resolver == given.resolver)
      (.resolverReplaced type name)

/- Check that every name is among the given names. -/
def checkKnown {α : Type}
    (type : String)
    (given : Entries α)
    (names : List String) : Except BuildError Unit :=
  names.forM fun name =>
    require (given.contains name) (.unknownField type name)

/- Check the fields of an object or interface. -/
def checkFields
    (type : String)
    (expected : List String)
    (given decorated : Entries OutputField) :
    Except BuildError Unit := do
  checkKnown type given expected
  checkKnown type given decorated.names
  given.forM fun (name, field) =>
    match decorated.get? name with
    | some kept => checkField type name field kept
    | none => .error (.fieldPartChanged type name .name)

/- Check the fields of an input object. -/
def checkInputFields
    (type : String)
    (given decorated : Entries InputValue) :
    Except BuildError Unit := do
  checkKnown type given decorated.names
  given.forM fun (name, field) =>
    match decorated.get? name with
    | some kept =>
        require
          (!field.location.isSdl || field.same kept)
          (.fieldPartChanged type name .type)
    | none => .error (.typePartChanged type .fields)

------------------------------------------------------------
-- Enum Values
------------------------------------------------------------

/- Check a value that is kept. -/
def checkValue
    (type : String)
    (given decorated : EnumValue) :
    Except BuildError Unit := do
  let changed := BuildError.fieldPartChanged type given.name
  if given.location.isSdl then
    require
      (given.description == decorated.description)
      (changed .description)
    require
      (given.deprecation == decorated.deprecation)
      (changed .deprecation)

/- Check the values of an enum. -/
def checkValues
    (type : String)
    (given decorated : List EnumValue) :
    Except BuildError Unit := do
  decorated.forM fun value =>
    require
      (given.any fun known => known.name == value.name)
      (.unknownField type value.name)
  given.forM fun value =>
    let kept? := decorated.find? fun kept =>
      kept.name == value.name
    match kept? with
    | some kept => checkValue type value kept
    | none => .error (.typePartChanged type .values)

------------------------------------------------------------
-- Types
------------------------------------------------------------

/- Check the interfaces and fields of a body. -/
def checkShape
    (type : String)
    (isSdl : Bool)
    (expected : List String)
    (given decorated : FieldShape) :
    Except BuildError Unit := do
  require
    (!isSdl || given.interfaces == decorated.interfaces)
    (.typePartChanged type .interfaces)
  checkFields type expected given.fields decorated.fields

/- Check what depends on the kind of a type. -/
def checkBody
    (expected : List String)
    (given decorated : TypeDef) : Except BuildError Unit :=
  let type := given.name
  let isSdl := given.location.isSdl
  match given, decorated with
  | .object given, .object decorated =>
      checkShape type isSdl expected given.shape
        decorated.shape
  | .interface given, .interface decorated =>
      checkShape type isSdl expected given.shape
        decorated.shape
  | .union given, .union decorated =>
      require
        (!isSdl || given.listed == decorated.listed)
        (.typePartChanged type .members)
  | .enum given, .enum decorated =>
      checkValues type given.values decorated.values
  | .inputObject given, .inputObject decorated =>
      checkInputFields type given.fields decorated.fields
  | .scalar _, .scalar _ => .ok ()
  | _, _ => .error (.typePartChanged type .kind)

/- Check a decorated type against the one given. -/
def check
    (expected : List String)
    (given decorated : TypeDef) :
    Except BuildError Unit := do
  let type := given.name
  require
    (given.kind == decorated.kind)
    (.typePartChanged type .kind)
  require
    (type == decorated.name)
    (.typePartChanged type .name)
  require
    (!given.location.isSdl ||
      given.header.description == decorated.header.description)
    (.typePartChanged type .description)
  checkBody expected given decorated

end Protection

/- Decorate a type and check what came back. -/
def Decorator.apply (decorator : Decorator) (type : TypeDef) :
    Except BuildError TypeDef := do
  let decorated := decorator.decorate type
  Protection.check (decorator.fields type.name) type decorated
  return decorated

end GraphQL
