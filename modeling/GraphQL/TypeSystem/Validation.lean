import GraphQL.TypeSystem.Flaw
import GraphQL.TypeSystem.Conformance
import GraphQL.TypeSystem.InputCycle

/-
  Validation of a type graph as a whole.

  Every type is sound by itself; fields have output types;
  arguments and input fields have input types; union members
  are objects; interfaces are implemented as declared.

  Key definitions include:
    * `TypeGraph.errors`
    * `TypeGraph.validate`
-/

------------------------------------------------------------
-- References
------------------------------------------------------------

namespace GraphQL

namespace TypeGraph

/-
  What is wrong with a reference, given the problem of a type
  that exists. References to no type are undefined.
-/
def referenceErrors
    (graph : TypeGraph)
    (ref : TypeRef)
    (problem? : NamedType → Option TypeError) :
    List TypeError :=
  match graph.lookup ref.innermost with
  | some type => (problem? type).toList
  | none => [.undefinedType ref.location ref.innermost]

/- What is wrong with the type of an argument. -/
def argumentErrors
    (graph : TypeGraph)
    (name : String)
    (argument : InputValue) : List TypeError :=
  graph.referenceErrors argument.type fun type =>
    if type.isInput then
      none
    else
      some
        (.argumentOfOutputType argument.type.location name
          argument.type.innermost)

/- What is wrong with the types of a field. -/
def fieldErrors
    (graph : TypeGraph)
    (parent name : String)
    (field : OutputField) : List TypeError :=
  let own := graph.referenceErrors field.type fun type =>
    if type.isOutput then
      none
    else
      some
        (.outputFieldOfInputType field.type.location parent name
          field.type.innermost)
  own ++ field.arguments.flatMap fun entry =>
    graph.argumentErrors entry.1 entry.2

/- What is wrong with the type of an input field. -/
def inputFieldErrors
    (graph : TypeGraph)
    (parent name : String)
    (field : InputValue) : List TypeError :=
  graph.referenceErrors field.type fun type =>
    if type.isInput then
      none
    else
      some
        (.inputFieldOfOutputType field.type.location parent name
          field.type.innermost)

/- What is wrong with a member of a union. -/
def memberError?
    (graph : TypeGraph)
    (union : UnionType)
    (member : String) : Option TypeError :=
  match graph.lookup member with
  | none => some (.undefinedType union.header.location member)
  | some (.defined (.object _)) => none
  | some type =>
      some
        (.memberKind union.header.location union.name member
          type.kind)

------------------------------------------------------------
-- Types
------------------------------------------------------------

/- What is wrong with an object or interface. -/
def implementorErrors (graph : TypeGraph) (self : Implementor) :
    List TypeError :=
  self.interfaceErrors graph ++
    self.shape.fields.flatMap fun entry =>
      graph.fieldErrors self.name entry.1 entry.2

/- What is wrong with an input object. -/
def inputObjectErrors
    (graph : TypeGraph)
    (type : InputObjectType) : List TypeError :=
  let references := type.fields.flatMap fun entry =>
    graph.inputFieldErrors type.name entry.1 entry.2
  references ++ type.cycleErrors graph

/- What is wrong with a type within the graph. -/
def typeErrors (graph : TypeGraph) : NamedType → List TypeError
| .defined (.inputObject type) => graph.inputObjectErrors type
| .defined (.union type) =>
    type.members.filterMap (graph.memberError? type)
| .defined type =>
    match type.implementor? with
    | some self => graph.implementorErrors self
    | none => []
| .builtin _ => []

/- All problems of a graph, type by type. -/
def errors (graph : TypeGraph) : List TypeError :=
  graph.types.flatMap graph.typeErrors

/- Accept a graph whose types are sound and fit together. -/
def validate (graph : TypeGraph) : Except BuildError Unit :=
  match graph.flawed? with
  | some error => .error error
  | none =>
      if graph.errors.isEmpty then
        .ok ()
      else
        .error (.typeErrors graph.errors)

end TypeGraph

end GraphQL
