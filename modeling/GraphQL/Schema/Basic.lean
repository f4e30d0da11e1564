import GraphQL.TypeSystem.Validation
import GraphQL.TypeSystem.Directive

/-
  Schemas: a type graph with directives and root types.

  Key definitions include:
    * `Schema`
    * `Schema.rootType?`
    * `Schema.possibleTypes`, `Schema.isPossible`
-/

------------------------------------------------------------
-- Schemas
------------------------------------------------------------

namespace GraphQL

/- The names of the root operation types. -/
structure Roots where
  query : Option RootReference
  mutation : Option RootReference
  subscription : Option RootReference
  deriving DecidableEq, Repr, Inhabited

/- The reference for a kind of operation. -/
def Roots.get? (roots : Roots) :
    OperationKind → Option RootReference
| .query => roots.query
| .mutation => roots.mutation
| .subscription => roots.subscription

/- Replace the reference for a kind of operation. -/
def Roots.set (roots : Roots) (ref : RootReference) :
    OperationKind → Roots
| .query => { roots with query := some ref }
| .mutation => { roots with mutation := some ref }
| .subscription => { roots with subscription := some ref }

/- A schema. -/
structure Schema where
  types : TypeGraph
  directives : List Directive
  query : RootReference
  mutation : Option RootReference
  subscription : Option RootReference
  deriving Inhabited

namespace Schema

/- The root references of a schema. -/
def roots (schema : Schema) : Roots :=
  ⟨some schema.query, schema.mutation, schema.subscription⟩

/- The type of a name. -/
def lookup (schema : Schema) (name : String) :
    Option NamedType :=
  schema.types.lookup name

/- The directive of a name. -/
def directive? (schema : Schema) (name : String) :
    Option Directive :=
  schema.directives.find? fun directive =>
    directive.name == name

/- The object type of a name. -/
def object? (schema : Schema) (name : String) :
    Option ObjectType :=
  (schema.lookup name).bind NamedType.object?

/- The root type of a kind of operation. -/
def rootType? (schema : Schema) (operation : OperationKind) :
    Option ObjectType :=
  (schema.roots.get? operation).bind fun ref =>
    schema.object? ref.type

------------------------------------------------------------
-- Possible Types
------------------------------------------------------------

/-
  The objects that declare an interface, in graph order, as
  often as they declare it.
-/
def implementors (schema : Schema) (interface : String) :
    List ObjectType :=
  schema.types.objects.flatMap fun object =>
    List.replicate (object.shape.interfaces.count interface)
      object

/- The objects that a value of an abstract type may have. -/
def possibleTypes (schema : Schema) :
    NamedType → List ObjectType
| .defined (.interface type) => schema.implementors type.name
| .defined (.union type) =>
    type.members.filterMap schema.object?
| _ => []

/- Whether an object is a possible type of an abstract type. -/
def isPossible (schema : Schema) (object : ObjectType) :
    NamedType → Bool
| .defined (.interface type) =>
    (schema.implementors type.name).any fun candidate =>
      candidate.name == object.name
| .defined (.union type) => type.members.contains object.name
| _ => false

end Schema

end GraphQL
