import GraphQL.Document.TypeSystem
import GraphQL.Document.Grammar

/-
  The grammar of type system documents.

  Definitions may have a description; extensions and schema
  blocks may not. Bodies may be absent but not empty, and an
  extension has to add something.

  Key definitions include:
    * `TypeSystemDocument.read?`
-/

------------------------------------------------------------
-- Members Of Types
------------------------------------------------------------

namespace GraphQL

namespace Grammar

/- A description, if there is one. -/
def description? : Grammar (Option String) := do
  if ← sees isString then
    match (← take).kind with
    | .string value => return some value
    | _ => failure
  else
    return none

/- Whether a token may start a member with a description. -/
def startsMember (token : Token) : Bool :=
  isString token || isName token

/- An argument or an input field. -/
def inputValue : Grammar InputValueDefinition := do
  let place ← position
  let about ← description?
  let text ← name
  mark ":"
  let type ← typeExpr
  let fallback ← default?
  return ⟨place, about, text, type, fallback, ← annotations⟩

/- Declared arguments in parentheses, if there are any. -/
def argumentDefinitions : Grammar (List InputValueDefinition) :=
  bracketed? "(" ")" (repeatSome startsMember inputValue)

/- A field of an object or interface. -/
def fieldDefinition : Grammar FieldDefinition := do
  let place ← position
  let about ← description?
  let text ← name
  let arguments ← argumentDefinitions
  mark ":"
  let type ← typeExpr
  return ⟨place, about, text, arguments, type, ← annotations⟩

/- Fields in braces, if there are any. -/
def fieldDefinitions : Grammar (List FieldDefinition) :=
  bracketed? "\x7b" "\x7d"
    (repeatSome startsMember fieldDefinition)

/- Input fields in braces, if there are any. -/
def inputFieldDefinitions :
    Grammar (List InputValueDefinition) :=
  bracketed? "\x7b" "\x7d" (repeatSome startsMember inputValue)

/- A value of an enum. -/
def enumValueDefinition : Grammar EnumValueDefinition := do
  let place ← position
  let about ← description?
  let text ← name
  return ⟨place, about, text, ← annotations⟩

/- Enum values in braces, if there are any. -/
def enumValueDefinitions : Grammar (List EnumValueDefinition) :=
  bracketed? "\x7b" "\x7d"
    (repeatSome startsMember enumValueDefinition)

/- Implemented interfaces, if there are any. -/
def implemented : Grammar (List String) := do
  if ← sees (isKeyword "implements") then
    keyword "implements"
    let _ ← mark? "&"
    separated "&" name
  else
    return []

/- Members of a union, if there are any. -/
def unionMembers : Grammar (List String) := do
  if ← mark? "=" then
    let _ ← mark? "|"
    separated "|" name
  else
    return []

------------------------------------------------------------
-- Types
------------------------------------------------------------

/-
  The name, annotations and content of a type after the keyword
  of its kind.
-/
def typeOfKind (kind : String) :
    Grammar (String × List Annotation × TypeContent) := do
  let title ← name
  match kind with
  | "scalar" => return (title, ← annotations, .scalar)
  | "type" =>
      let interfaces ← implemented
      let applied ← annotations
      return (title, applied,
        .object interfaces (← fieldDefinitions))
  | "interface" =>
      let interfaces ← implemented
      let applied ← annotations
      return (title, applied,
        .interface interfaces (← fieldDefinitions))
  | "union" =>
      let applied ← annotations
      return (title, applied, .union (← unionMembers))
  | "enum" =>
      let applied ← annotations
      return (title, applied, .enum (← enumValueDefinitions))
  | "input" =>
      let applied ← annotations
      return (title, applied,
        .inputObject (← inputFieldDefinitions))
  | _ => failure

/-
  Whether an extension adds something. The interfaces that an
  interface implements do not count.
-/
def adds (applied : List Annotation) (content : TypeContent) :
    Bool :=
  !applied.isEmpty ||
    match content with
    | .scalar => false
    | .object interfaces fields =>
        !interfaces.isEmpty || !fields.isEmpty
    | .interface _ fields => !fields.isEmpty
    | .union members => !members.isEmpty
    | .enum values => !values.isEmpty
    | .inputObject fields => !fields.isEmpty

/- An extension. -/
def typeExtension : Grammar TypeExtension := do
  keyword "extend"
  let place ← position
  let kind ← name
  let (title, applied, content) ← typeOfKind kind
  if adds applied content then
    return ⟨place, title, applied, content⟩
  else
    failure

------------------------------------------------------------
-- Directives And Schema Blocks
------------------------------------------------------------

/- The places where a directive may be declared to apply. -/
def directiveLocations : List String :=
  [ "QUERY", "MUTATION", "SUBSCRIPTION", "FIELD",
    "FRAGMENT_DEFINITION", "FRAGMENT_SPREAD",
    "INLINE_FRAGMENT", "SCHEMA", "SCALAR", "OBJECT",
    "FIELD_DEFINITION", "ARGUMENT_DEFINITION", "INTERFACE",
    "UNION", "ENUM", "ENUM_VALUE", "INPUT_OBJECT",
    "INPUT_FIELD_DEFINITION", "VARIABLE_DEFINITION"]

/- The name of a place where a directive applies. -/
def directiveLocation : Grammar String := do
  let text ← name
  if directiveLocations.contains text then
    return text
  else
    failure

/- A directive definition after its keyword. -/
def directiveDefinition
    (place : Position) (about : Option String) :
    Grammar DirectiveDefinition := do
  mark "@"
  let title ← name
  let arguments ← argumentDefinitions
  let repeatable ← sees (isKeyword "repeatable")
  if repeatable then
    keyword "repeatable"
  keyword "on"
  let led ← mark? "|"
  let named ← sees isName
  let locations ←
    if led || named then
      separated "|" directiveLocation
    else
      pure []
  return ⟨place, about, title, arguments, repeatable, locations⟩

/- Set the root type of an operation that has none. -/
def setRoot (block : SchemaBlock) (kind root : String) :
    Option SchemaBlock :=
  match kind with
  | "query" =>
      if block.query.isSome then none
      else some { block with query := some root }
  | "mutation" =>
      if block.mutation.isSome then none
      else some { block with mutation := some root }
  | "subscription" =>
      if block.subscription.isSome then none
      else some { block with subscription := some root }
  | _ => none

/- A schema block. -/
def schemaBlock : Grammar SchemaBlock := do
  let place ← position
  keyword "schema"
  let applied ← annotations
  mark "\x7b"
  let roots ← repeatWhile isName do
    let kind ← name
    mark ":"
    return (kind, ← name)
  mark "\x7d"
  roots.foldlM (fun block root => setRoot block root.1 root.2)
    ⟨place, applied, none, none, none⟩

/- A definition of a type system document. -/
def typeSystemDefinition : Grammar TypeSystemDefinition := do
  if ← sees (isKeyword "schema") then
    return .schema (← schemaBlock)
  else if ← sees (isKeyword "extend") then
    return .extension (← typeExtension)
  else
    let about ← description?
    let place ← position
    let kind ← name
    if kind = "directive" then
      return .directive (← directiveDefinition place about)
    else
      let (title, applied, content) ← typeOfKind kind
      return .type ⟨place, about, title, applied, content⟩

end Grammar

/- The type system document a text denotes, if it is one. -/
def TypeSystemDocument.read? (text : String) :
    Option TypeSystemDocument :=
  Grammar.read? (Grammar.document Grammar.typeSystemDefinition)
    text

end GraphQL
