import GraphQL.Description.Element

/-
  Descriptions of types and of whole schemas as records.

  Key definitions include:
    * `Description.outline`, `Description.type`
    * `Description.summary`, `Description.schema`
-/

------------------------------------------------------------
-- Types
------------------------------------------------------------

namespace GraphQL

/- Kind and name of a defined type. -/
def TypeDef.title (type : TypeDef) : String :=
  type.kind.name ++ " " ++ type.name

namespace Description

/- What the definition of a type tells about it. -/
def origin (type : TypeDef) : Json :=
  .array
    [ .string type.kind.name, .string type.name,
      location type.location, text? type.header.description]

/- What is true of types of every kind. -/
def outline (type : NamedType) : List (String × Json) :=
  let (scalar, origin) :=
    match type with
    | .builtin scalar => (Json.string scalar.name, Json.null)
    | .defined type => (.null, origin type)
  [ ("name", .string type.name),
    ("kind", .string type.kind.name),
    ("description", text? type.description),
    ("location", location type.location),
    ("builtin", scalar),
    ("abstract", .bool type.isAbstract),
    ("input", .bool type.isInput),
    ("output", .bool type.isOutput),
    ("leaf", .bool type.isLeaf),
    ("config", origin)]

/- Which hooks there are. -/
def hooks (given : List (Option Hook)) : String × Json :=
  ("hooks", .array (given.map fun hook => .bool hook.isSome))

/- The names of the possible types of an abstract type. -/
def possible (schema : Schema) (type : NamedType) :
    String × Json :=
  ("possible_types",
    texts ((schema.possibleTypes type).map ObjectType.name))

/- Interfaces and fields. -/
def shape (schema : Schema) (name : String)
    (shape : FieldShape) : List (String × Json) :=
  [ ("interfaces", texts shape.interfaces),
    ("fields",
      .array (shape.fields.map fun entry =>
        outputField schema name entry.2))]

/- What depends on the kind of a type. -/
def body (schema : Schema) : TypeDef → List (String × Json)
| .object type =>
    shape schema type.name type.shape ++
      [hooks [type.shape.resolveField, type.isTypeOf]]
| .interface type =>
    shape schema type.name type.shape ++
      [ hooks [type.shape.resolveField, type.resolveType],
        possible schema (.defined (.interface type))]
| .union type =>
    [ ("members", texts type.members),
      hooks [type.resolveType],
      possible schema (.defined (.union type))]
| .enum type =>
    [ ("values",
        .array (type.values.map fun value =>
          enumValue schema type.name value))]
| .scalar type =>
    [("specified_by_url", text? type.specifiedBy)]
| .inputObject type =>
    [ ("fields",
        .array (type.fields.map fun entry =>
          inputField schema type.name entry.2))]

/- What types of all kinds have. -/
def header (schema : Schema) (header : TypeHeader) :
    List (String × Json) :=
  [ ("directives", applied schema header.directives),
    ("extensions", .array (header.extensions.map location)),
    ("metadata", compact (.object header.metadata))]

/- A type; a built-in scalar is only named. -/
def type (schema : Schema) : NamedType → Json
| .builtin scalar => .string scalar.name
| .defined type =>
    .object
      (outline (.defined type) ++ header schema type.header ++
        body schema type)

------------------------------------------------------------
-- Schemas
------------------------------------------------------------

/- The names of the root types. -/
def rootNames (schema : Schema) : List (String × Json) :=
  let name (ref : Option RootReference) : Json :=
    text? (ref.map RootReference.type)
  [ ("query", .string schema.query.type),
    ("mutation", name schema.mutation),
    ("subscription", name schema.subscription)]

/- The titles of all defined types. -/
def titles (schema : Schema) : List String :=
  schema.types.types.filterMap fun
  | .builtin _ => none
  | .defined type => some type.title

/- The names of what a schema consists of. -/
def summary (schema : Schema) : Json :=
  .object
    (rootNames schema ++
      [ ("types", texts (titles schema)),
        ("directives",
          texts (schema.directives.map Directive.name))])

/- All about a schema; built-in directives are only named. -/
def schema (schema : Schema) : Json :=
  let directives := schema.directives.map fun directive =>
    if directive.isBuiltin then
      Json.string directive.name
    else
      Description.directive directive
  let types := schema.types.types.map (type schema)
  .object
    (rootNames schema ++
      [ ("types", .array types),
        ("directives", .array directives),
        ("type_names", texts schema.types.sortedNames),
        ("len", .ofNat schema.types.size)])

end Description

end GraphQL
