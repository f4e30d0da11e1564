import GraphQL.Schema.Basic
import GraphQL.Document.TypeSystem
import GraphQL.Execution.Response

/-
  The rule that the type names of a document are known.

  An executable document refers to types of a schema. A type
  system document may also refer to types that it defines, and
  to the types that every schema has.

  Key definitions include:
    * `ValidationError`
    * `KnownTypeNames.executableReferences`
    * `KnownTypeNames.typeSystemReferences`
    * `KnownTypeNames.checkExecutable`
    * `KnownTypeNames.checkTypeSystem`
-/

------------------------------------------------------------
-- Errors
------------------------------------------------------------

namespace GraphQL

/- A problem of a document, with its places. -/
structure ValidationError where
  message : String
  locations : List Position
  deriving DecidableEq, Repr, Inhabited

namespace ValidationError

/- An error as a record. -/
def toJson (error : ValidationError) : Json :=
  .object
    (("message", .string error.message) ::
      Json.nonEmptyField "locations" Position.toJson
        error.locations)

/- Read an error. Only the message has to be there. -/
def ofJson? (value : Json) : Option ValidationError := do
  match ← value.slots? ["message", "locations"] 1 with
  | [some message, locations] =>
      let message ← message.readString?
      let locations ←
        Json.readListOr? Position.ofJson? locations
      return ⟨message, locations⟩
  | _ => none

end ValidationError

namespace KnownTypeNames

/- The types that describe schemas. -/
def introspectionNames : List String :=
  [ "__Directive", "__DirectiveLocation", "__EnumValue",
    "__Field", "__InputValue", "__Schema", "__Type",
    "__TypeKind"]

/- The names of types that every schema has. -/
def standardNames : List String :=
  BuiltinScalar.all.map BuiltinScalar.name ++ introspectionNames

/- A type name with the place of what it is part of. -/
structure Reference where
  name : String
  position : Position
  deriving DecidableEq, Repr, Inhabited

/- The error of an unknown name, given the known ones. -/
def unknownName (options : List String) (ref : Reference) :
    ValidationError :=
  let name := ref.name
  let question :=
    Suggestion.didYouMean none (Suggestion.closest name options)
  ⟨s!"Unknown type \"{name}\"." ++ question, [ref.position]⟩

------------------------------------------------------------
-- Executable Documents
------------------------------------------------------------

mutual

/- The type names in one selection. -/
def selectionReferences : Selection → List Reference
| .field _ selections => selectionsReferences selections
| .spread _ => []
| .inline head selections =>
    (head.condition.toList.map fun name =>
      ⟨name, head.position⟩) ++
      selectionsReferences selections

/- The type names in selections. -/
def selectionsReferences : List Selection → List Reference
| [] => []
| selection :: rest =>
    selectionReferences selection ++ selectionsReferences rest

end

/- The type names in one definition. -/
def definitionReferences :
    ExecutableDefinition → List Reference
| .operation operation =>
    let types := operation.definitions.map fun definition =>
      ⟨definition.type.innermost, definition.position⟩
    types ++ selectionsReferences operation.selections
| .fragment fragment =>
    ⟨fragment.condition, fragment.position⟩ ::
      selectionsReferences fragment.selections

/- The type names in an executable document, in order. -/
def executableReferences (document : ExecutableDocument) :
    List Reference :=
  document.flatMap definitionReferences

/- The unknown type names of an executable document. -/
def checkExecutable
    (schema : Schema)
    (document : ExecutableDocument) : List ValidationError :=
  let unknown := (executableReferences document).filter
    fun ref => !schema.types.contains ref.name
  unknown.map (unknownName schema.types.sortedNames)

------------------------------------------------------------
-- Type System Documents
------------------------------------------------------------

/- The type names in arguments or input fields. -/
def inputReferences (values : List InputValueDefinition) :
    List Reference :=
  values.map fun value => ⟨value.type.innermost, value.position⟩

/- The type names in fields. -/
def fieldReferences (fields : List FieldDefinition) :
    List Reference :=
  fields.flatMap fun field =>
    ⟨field.type.innermost, field.position⟩ ::
      inputReferences field.arguments

/- Names that stand at one place. -/
def namesAt (pos : Position) (names : List String) :
    List Reference :=
  names.map fun name => ⟨name, pos⟩

/- The type names in the content of a definition. -/
def contentReferences (pos : Position) :
    TypeContent → List Reference
| .scalar => []
| .object interfaces fields =>
    namesAt pos interfaces ++ fieldReferences fields
| .interface interfaces fields =>
    namesAt pos interfaces ++ fieldReferences fields
| .union members => namesAt pos members
| .enum _ => []
| .inputObject fields => inputReferences fields

/- The type names in one definition of a type system. -/
def typeSystemDefinitionReferences :
    TypeSystemDefinition → List Reference
| .schema block =>
    namesAt block.position
      (block.query.toList ++ block.mutation.toList ++
        block.subscription.toList)
| .type definition =>
    contentReferences definition.position definition.content
| .extension extension =>
    contentReferences extension.position extension.content
| .directive definition => inputReferences definition.arguments

/- The type names in a type system document, in order. -/
def typeSystemReferences (document : TypeSystemDocument) :
    List Reference :=
  document.flatMap typeSystemDefinitionReferences

/- The names of the types that a document defines. -/
def definedNames (document : TypeSystemDocument) :
    List String :=
  document.filterMap fun
  | .type definition => some definition.name
  | _ => none

/- Whether a name is known in a type system document. -/
def isKnown
    (schema? : Option Schema)
    (document : TypeSystemDocument)
    (name : String) : Bool :=
  (definedNames document).contains name ||
    schema?.any (fun schema => schema.types.contains name) ||
    standardNames.contains name

/- The unknown type names of a type system document. -/
def checkTypeSystem
    (schema? : Option Schema)
    (document : TypeSystemDocument) : List ValidationError :=
  let unknown := (typeSystemReferences document).filter
    fun ref => !isKnown schema? document ref.name
  unknown.map
    (unknownName (standardNames ++ definedNames document))

end KnownTypeNames

end GraphQL
