import GraphQL.Schema.Basic

/-
  Descriptions of the elements of a schema as records.

  Runtime values in records are given as compact text, types
  and literals as they are written, and locations as a word
  with a place.

  Key definitions include:
    * `SourceLocation.text`, `AppliedDirective.text`
    * `Description.reference`, `Description.directive`
    * `Description.outputField`, `Description.inputField`
    * `Description.enumValue`
-/

------------------------------------------------------------
-- Locations
------------------------------------------------------------

namespace GraphQL

/- A place as a file with a line and a column. -/
def FilePosition.text (place : FilePosition) : String :=
  place.file.getD "-" ++ " " ++ toString place.line ++ ":" ++
    toString place.column

/- A location as a word with its place. -/
def SourceLocation.text : SourceLocation → String
| executable place => "executable " ++ place.text
| builtin => "builtin"
| programmatic => "programmatic"
| schema place => "schema " ++ place.text

/- An applied directive with its arguments and location. -/
def AppliedDirective.text (applied : AppliedDirective) :
    String :=
  let arguments := applied.arguments.map fun entry =>
    entry.1 ++ ": " ++ entry.2.text
  "@" ++ applied.name ++ "(" ++ ", ".intercalate arguments ++
    ") " ++ applied.location.text

namespace Description

------------------------------------------------------------
-- Parts
------------------------------------------------------------

/- Texts. -/
def texts (values : List String) : Json :=
  .array (values.map Json.string)

/- A text, or null if there is none. -/
def text? (value : Option String) : Json :=
  match value with
  | some text => .string text
  | none => .null

/- A runtime value as compact text. -/
def compact (value : Json) : Json :=
  .string value.text

/- A location. -/
def location (value : SourceLocation) : Json :=
  .string value.text

/- A reference to a type. -/
def reference (type : TypeRef) : List (String × Json) :=
  let (inner, name) :=
    match type with
    | .list inner _ _ => (Json.string inner.text, Json.null)
    | .named name _ _ => (.null, .string name)
  [ ("display", .string type.text),
    ("nullable", .bool type.nullable),
    ("list", inner),
    ("named", name),
    ("innermost", .string type.innermost),
    ("location", location type.location)]

/- A default as it is written. -/
def default? (value : Option Literal) : Json :=
  text? (value.map Literal.text)

/- Applied directives; those without definition are marked. -/
def applied (schema : Schema)
    (directives : List AppliedDirective) : Json :=
  texts (directives.map fun directive =>
    if (schema.directive? directive.name).isSome then
      directive.text
    else
      directive.text ++ " undefined")

/- An argument that is filed under a key. -/
def argument (key : String) (value : InputValue) : Json :=
  .object
    [ ("name", .string value.name),
      ("key_matches", .bool (key == value.name)),
      ("type", .string value.type.text),
      ("type_location", location value.type.location),
      ("default", default? value.default),
      ("description", text? value.description),
      ("location", location value.location),
      ("directives",
        texts (value.directives.map AppliedDirective.text))]

/- Arguments in order. -/
def arguments (values : Entries InputValue) : Json :=
  .array (values.map fun entry => argument entry.1 entry.2)

------------------------------------------------------------
-- Elements
------------------------------------------------------------

/- A directive with its arguments. -/
def directive (directive : Directive) : Json :=
  let custom :=
    match directive with
    | .custom directive =>
        [ ("on", texts directive.locations),
          ("repeatable", .bool directive.repeatable)]
    | .builtin _ => []
  .object
    ([ ("name", .string directive.name),
        ("description", text? directive.description),
        ("location", location directive.location),
        ("builtin", .bool directive.isBuiltin),
        ("params", arguments directive.arguments)] ++
      custom)

/- A field of an object or interface. -/
def outputField
    (schema : Schema)
    (parent : String)
    (field : OutputField) : Json :=
  .object
    [ ("name", .string field.name),
      ("type", .string field.type.text),
      ("description", text? field.description),
      ("deprecated", text? field.deprecation),
      ("location", location field.location),
      ("params", arguments field.arguments),
      ("directives", applied schema field.directives),
      ("metadata", compact (.object field.metadata)),
      ("resolver", .bool field.resolver.isSome),
      ("parent", .string parent)]

/- A field of an input object. -/
def inputField
    (schema : Schema)
    (parent : String)
    (field : InputValue) : Json :=
  .object
    [ ("name", .string field.name),
      ("type", .string field.type.text),
      ("default", default? field.default),
      ("description", text? field.description),
      ("location", location field.location),
      ("directives", applied schema field.directives),
      ("parent", .string parent)]

/- A value of an enum. -/
def enumValue
    (schema : Schema)
    (enum : String)
    (value : EnumValue) : Json :=
  .object
    [ ("name", .string value.name),
      ("value", compact value.value),
      ("description", text? value.description),
      ("deprecated", text? value.deprecation),
      ("is_deprecated", .bool value.deprecation.isSome),
      ("enum", .string enum),
      ("location", location value.location),
      ("directives", applied schema value.directives)]

end Description

end GraphQL
