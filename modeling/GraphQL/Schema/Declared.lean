import GraphQL.TypeSystem.Graph
import GraphQL.Document.TypeSystem

/-
  Types as schema text declares them.

  A definition gives a type, an extension adds to one. Names
  that are reserved or taken are refused; of two arguments with
  one name the later one counts.

  Key definitions include:
    * `Declared.fields`, `Declared.inputFields`
    * `TypeDef.ofDefinition`
    * `TypeDef.extend`
-/

------------------------------------------------------------
-- Arguments And Input Fields
------------------------------------------------------------

namespace GraphQL

/- The kind of type that some content belongs to. -/
def TypeContent.kind : TypeContent → TypeKind
| scalar => .scalar
| object _ _ => .object
| interface _ _ => .interface
| union _ => .union
| enum _ => .enum
| inputObject _ => .inputObject

namespace Declared

/- An argument or input field that stands at a location. -/
def inputValue
    (location : SourceLocation)
    (definition : InputValueDefinition) : InputValue where
  name := definition.name
  type := .ofExpr location definition.type
  default := definition.default
  description := definition.description
  location := location
  directives :=
    AppliedDirective.ofAnnotations location
      definition.annotations

/- Add an argument to those of a field. -/
def argument
    (type field : String)
    (location : SourceLocation)
    (done : Entries InputValue)
    (definition : InputValueDefinition) :
    Except BuildError (Entries InputValue) :=
  let place := location.moved definition.position
  if Name.isReserved definition.name then
    .error (.reservedArgument type field definition.name place)
  else
    .ok
      (done.insert definition.name (inputValue place definition))

/- The arguments of a field. -/
def arguments
    (type field : String)
    (location : SourceLocation)
    (definitions : List InputValueDefinition) :
    Except BuildError (Entries InputValue) :=
  definitions.foldlM (argument type field location) []

/- Add an input field to those before it. -/
def inputField
    (type : String)
    (location : SourceLocation)
    (done : Entries InputValue)
    (definition : InputValueDefinition) :
    Except BuildError (Entries InputValue) :=
  let name := definition.name
  let place := location.moved definition.position
  if Name.isReserved name then
    .error (.reservedField type name place)
  else
    match done.get? name with
    | some first =>
        .error (.duplicateField type name first.location place)
    | none => .ok (done.insert name (inputValue place definition))

/- The input fields of a body. -/
def inputFields
    (type : String)
    (location : SourceLocation)
    (definitions : List InputValueDefinition) :
    Except BuildError (Entries InputValue) :=
  definitions.foldlM (inputField type location) []

------------------------------------------------------------
-- Fields
------------------------------------------------------------

/- A field with its arguments. -/
def outputField
    (location : SourceLocation)
    (definition : FieldDefinition)
    (arguments : Entries InputValue) : OutputField :=
  let directives :=
    AppliedDirective.ofAnnotations location
      definition.annotations
  { name := definition.name
    type := .ofExpr location definition.type
    arguments := arguments
    description := definition.description
    deprecation := AppliedDirective.deprecationReason directives
    location := location
    directives := directives
    metadata := []
    resolver := none }

/- Add a field to those before it. -/
def field
    (type : String)
    (location : SourceLocation)
    (done : Entries OutputField)
    (definition : FieldDefinition) :
    Except BuildError (Entries OutputField) :=
  let name := definition.name
  let place := location.moved definition.position
  if Name.isReserved name then
    .error (.reservedField type name place)
  else
    match done.get? name with
    | some first =>
        .error (.duplicateField type name first.location place)
    | none => do
        let arguments ←
          arguments type name location definition.arguments
        .ok
          (done.insert name
            (outputField place definition arguments))

/- The fields of a body. -/
def fields
    (type : String)
    (location : SourceLocation)
    (definitions : List FieldDefinition) :
    Except BuildError (Entries OutputField) :=
  definitions.foldlM (field type location) []

------------------------------------------------------------
-- Interfaces, Members And Values
------------------------------------------------------------

/- Add an interface to those before it. -/
def interface
    (type : String)
    (kind : TypeKind)
    (location : SourceLocation)
    (done : List String)
    (name : String) : Except BuildError (List String) :=
  if kind = .interface ∧ name = type then
    .error (.selfImplementation type location)
  else if done.contains name then
    .error (.duplicateInterface type name location)
  else
    .ok (done ++ [name])

/- Interfaces that follow those declared before. -/
def interfaces
    (type : String)
    (kind : TypeKind)
    (location : SourceLocation)
    (done names : List String) :
    Except BuildError (List String) :=
  names.foldlM (interface type kind location) done

/- Add a member to those before it, each with its location. -/
def member
    (union : String)
    (location : SourceLocation)
    (done : Entries SourceLocation)
    (name : String) :
    Except BuildError (Entries SourceLocation) :=
  match done.get? name with
  | some first =>
      .error (.duplicateMember union name first location)
  | none => .ok (done ++ [(name, location)])

/- Members that follow those listed before. -/
def members
    (union : String)
    (location : SourceLocation)
    (done : Entries SourceLocation)
    (names : List String) :
    Except BuildError (List String) := do
  let all ← names.foldlM (member union location) done
  return all.names

/- A value of an enum; its internal value is its name. -/
def enumValue
    (location : SourceLocation)
    (definition : EnumValueDefinition) : EnumValue :=
  let directives :=
    AppliedDirective.ofAnnotations location
      definition.annotations
  { name := definition.name
    value := .string definition.name
    description := definition.description
    deprecation := AppliedDirective.deprecationReason directives
    location := location
    directives := directives }

/- Add a value to those before it. -/
def value
    (enum : String)
    (enumLocation location : SourceLocation)
    (done : List EnumValue)
    (definition : EnumValueDefinition) :
    Except BuildError (List EnumValue) :=
  let place := location.moved definition.position
  let known := done.find? fun value =>
    value.name == definition.name
  match known with
  | some first =>
      .error
        (.duplicateEnumValue enum enumLocation first.location
          place)
  | none => .ok (done ++ [enumValue place definition])

/- Values that follow those declared before. -/
def values
    (enum : String)
    (enumLocation location : SourceLocation)
    (done : List EnumValue)
    (definitions : List EnumValueDefinition) :
    Except BuildError (List EnumValue) :=
  definitions.foldlM (value enum enumLocation location) done

end Declared

------------------------------------------------------------
-- Definitions
------------------------------------------------------------

/- The header of a definition. -/
def TypeHeader.ofDefinition
    (location : SourceLocation)
    (definition : TypeDefinition) : TypeHeader where
  name := definition.name
  location := location
  description := definition.description
  directives :=
    AppliedDirective.ofAnnotations location
      definition.annotations
  extensions := []
  metadata := []

/- The type of a definition. -/
def TypeDef.ofDefinition
    (location : SourceLocation)
    (definition : TypeDefinition) : Except BuildError TypeDef :=
  let name := definition.name
  let header := TypeHeader.ofDefinition location definition
  match definition.content with
  | .scalar =>
      .ok
        (.scalar
          { header := header
            serialize := none
            parseValue := none
            parseLiteral := none
            specifiedBy :=
              AppliedDirective.specifiedBy header.directives })
  | .object interfaces fields => do
      let fields ← Declared.fields name location fields
      let interfaces ←
        Declared.interfaces name .object location [] interfaces
      return .object ⟨header, ⟨fields, interfaces, none⟩, none⟩
  | .interface interfaces fields => do
      let fields ← Declared.fields name location fields
      let interfaces ←
        Declared.interfaces name .interface location [] interfaces
      return .interface
        ⟨header, ⟨fields, interfaces, none⟩, none⟩
  | .union members => do
      let members ← Declared.members name location [] members
      return .union ⟨header, members, none⟩
  | .enum values =>
      if values.isEmpty then
        .error (.enumWithoutValues name location)
      else do
        let values ←
          Declared.values name location location [] values
        return .enum ⟨header, values⟩
  | .inputObject fields => do
      let fields ← Declared.inputFields name location fields
      return .inputObject ⟨header, fields⟩

------------------------------------------------------------
-- Extensions
------------------------------------------------------------

/- Add fields that are not there yet. -/
def Declared.extendBody {α : Type}
    (type : String)
    (location : α → SourceLocation)
    (body additions : Entries α) :
    Except BuildError (Entries α) :=
  additions.foldlM
    (fun body (name, added) =>
      match body.get? name with
      | some first =>
          .error
            (.duplicateField type name (location first)
              (location added))
      | none => .ok (body.insert name added))
    body

/- The fields and interfaces of an extended body. -/
def FieldShape.extend
    (shape : FieldShape)
    (type : String)
    (kind : TypeKind)
    (location : SourceLocation)
    (interfaces : List String)
    (fields : List FieldDefinition) :
    Except BuildError FieldShape := do
  let interfaces ←
    Declared.interfaces type kind location shape.interfaces
      interfaces
  let added ← Declared.fields type location fields
  let fields ←
    Declared.extendBody type OutputField.location shape.fields
      added
  return { shape with fields := fields, interfaces := interfaces }

/- The header of an extended type. -/
def TypeHeader.extend
    (header : TypeHeader)
    (location : SourceLocation)
    (extension : TypeExtension) : TypeHeader :=
  { header with
    directives := header.directives ++
      AppliedDirective.ofAnnotations location
        extension.annotations
    extensions := header.extensions ++ [location] }

/- A scalar keeps its first specification. -/
def ScalarType.extend
    (type : ScalarType)
    (location : SourceLocation)
    (extension : TypeExtension) : ScalarType :=
  { type with
    header := type.header.extend location extension
    specifiedBy := type.specifiedBy.or
      (AppliedDirective.specifiedBy
        (AppliedDirective.ofAnnotations location
          extension.annotations)) }

/- A type with what an extension of its kind adds. -/
def TypeDef.extend
    (type : TypeDef)
    (location : SourceLocation)
    (extension : TypeExtension) : Except BuildError TypeDef :=
  let name := extension.name
  match type, extension.content with
  | .scalar type, .scalar =>
      .ok (.scalar (type.extend location extension))
  | .object type, .object interfaces fields => do
      let shape ←
        type.shape.extend name .object location interfaces fields
      return .object
        { type with
          header := type.header.extend location extension
          shape := shape }
  | .interface type, .interface interfaces fields => do
      let shape ←
        type.shape.extend name .interface location interfaces
          fields
      return .interface
        { type with
          header := type.header.extend location extension
          shape := shape }
  | .union type, .union members => do
      let listed := type.listed.map fun member =>
        (member, type.header.location)
      let members ← Declared.members name location listed members
      return .union
        { type with
          header := type.header.extend location extension
          listed := members }
  | .enum type, .enum values => do
      let values ←
        Declared.values name type.header.location location
          type.values values
      return .enum
        { type with
          header := type.header.extend location extension
          values := values }
  | .inputObject type, .inputObject fields => do
      let added ← Declared.inputFields name location fields
      let fields ←
        Declared.extendBody name InputValue.location type.fields
          added
      return .inputObject
        { type with
          header := type.header.extend location extension
          fields := fields }
  | type, _ =>
      .error (.extensionOfOtherKind name type.kind location)

end GraphQL
