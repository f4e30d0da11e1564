import GraphQL.TypeSystem.Subtype

/-
  Conformance of objects and interfaces to the interfaces they
  declare.

  An interface is checked once for each type, wherever in the
  hierarchy it is met first. The interfaces that an interface
  declares have to be declared by the type as well.

  Key definitions include:
    * `Implementor`
    * `Implementor.fieldErrors`: one field against another
    * `Implementor.interfaceErrors`: all interfaces of a type
-/

------------------------------------------------------------
-- Implementors
------------------------------------------------------------

namespace GraphQL

/- An object or interface that declares interfaces. -/
structure Implementor where
  name : String
  location : SourceLocation
  shape : FieldShape
  deriving Repr, Inhabited

/- An object or interface as an implementor. -/
def TypeDef.implementor? : TypeDef → Option Implementor
| object type =>
    some ⟨type.name, type.header.location, type.shape⟩
| interface type =>
    some ⟨type.name, type.header.location, type.shape⟩
| _ => none

namespace Implementor

------------------------------------------------------------
-- Fields
------------------------------------------------------------

/- Arguments of the interface that are missing or differ. -/
def argumentErrors
    (self : Implementor)
    (interface : String)
    (expected found : OutputField) : List TypeError :=
  expected.arguments.filterMap fun (name, wanted) =>
    match found.arguments.get? name with
    | none =>
        some
          (.missingArgument found.location self.name found.name
            interface name)
    | some given =>
        if given.type.same wanted.type then
          none
        else
          some
            (.argumentType given.location self.name found.name
              interface name wanted.type given.type)

/- Required arguments that the interface does not have. -/
def extraArgumentErrors
    (self : Implementor)
    (interface : String)
    (expected found : OutputField) : List TypeError :=
  found.arguments.filterMap fun (name, given) =>
    if !expected.arguments.contains name && given.isRequired then
      some
        (.extraArgument given.type.location self.name found.name
          interface name)
    else
      none

/- What is wrong with a field that an interface specifies. -/
def fieldErrors
    (graph : TypeGraph)
    (self : Implementor)
    (interface : String)
    (expected found : OutputField) : List TypeError :=
  let typeErrors :=
    if graph.isSubtype found.type expected.type then
      []
    else
      [.fieldType found.type.location self.name found.name
        interface expected.type found.type]
  self.argumentErrors interface expected found ++
    self.extraArgumentErrors interface expected found ++
    typeErrors

/- What is wrong with the fields that an interface specifies. -/
def shapeErrors
    (graph : TypeGraph)
    (self : Implementor)
    (interface : InterfaceType) : List TypeError :=
  interface.shape.fields.flatMap fun (name, expected) =>
    match self.shape.fields.get? name with
    | some found =>
        self.fieldErrors graph interface.name expected found
    | none =>
        [.missingField self.location self.name name
          interface.name]

------------------------------------------------------------
-- Hierarchies
------------------------------------------------------------

/- Distinct names in alphabetical order. -/
def sorted (names : List String) : List String :=
  names.eraseDups.mergeSort fun a b => a ≤ b

/- Interfaces of an interface that are not declared. -/
def missingErrors
    (self : Implementor)
    (declared path : List String)
    (interface : InterfaceType) : List TypeError :=
  let missing := (sorted interface.shape.interfaces).filter
    fun name => !declared.contains name
  missing.map fun name =>
    .missingInterface self.location self.name path name

/-
  Check names that are not verified yet, given the check of an
  interface. The answer has the names verified by then.
-/
def checkEach
    (graph : TypeGraph)
    (self : Implementor)
    (check : InterfaceType → List String →
      List TypeError × List String) :
    (names verified : List String) →
      List TypeError × List String
| [], verified => ([], verified)
| name :: rest, verified =>
    if verified.contains name then
      checkEach graph self check rest verified
    else
      let verified := name :: verified
      let (now, verified) :=
        match graph.lookup name with
        | some (.defined (.interface type)) =>
            check type verified
        | some other =>
            ([.implementsOtherKind self.location self.name
              other.name], verified)
        | none =>
            ([.implementsUndefined self.location self.name
              name], verified)
      let (later, verified) :=
        checkEach graph self check rest verified
      (now ++ later, verified)

/-
  Check the interfaces declared at the end of a path of
  interfaces. No path is longer than the graph.
-/
def checkDeclared (graph : TypeGraph) (self : Implementor) :
    (depth : Nat) → (declared path verified : List String) →
      List TypeError × List String
| 0, _, _, verified => ([], verified)
| depth + 1, declared, path, verified =>
    let check (interface : InterfaceType)
        (verified : List String) :=
      let path := path ++ [interface.name]
      let missing := self.missingErrors declared path interface
      let (nested, verified) :=
        checkDeclared graph self depth
          interface.shape.interfaces path verified
      (missing ++ nested ++ self.shapeErrors graph interface,
        verified)
    checkEach graph self check (sorted declared) verified

/- What is wrong with the interfaces of a type. -/
def interfaceErrors (graph : TypeGraph) (self : Implementor) :
    List TypeError :=
  (checkDeclared graph self (graph.size + 1)
    self.shape.interfaces [] []).1

end Implementor

end GraphQL
