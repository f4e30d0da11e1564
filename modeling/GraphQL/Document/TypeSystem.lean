import GraphQL.Document.Literal

/-
  Type system documents: definitions and extensions of types,
  directive definitions and schema blocks.

  A definition and an extension of one kind contribute the same
  content to a type.

  Key definitions include:
    * `TypeContent`, `TypeDefinition`, `TypeExtension`
    * `DirectiveDefinition`, `SchemaBlock`
    * `TypeSystemDocument`
-/

------------------------------------------------------------
-- Members Of Types
------------------------------------------------------------

namespace GraphQL

/- An argument or an input field. -/
structure InputValueDefinition where
  position : Position
  description : Option String
  name : String
  type : TypeExpr
  default : Option Literal
  annotations : List Annotation
  deriving Repr, Inhabited

/- A field of an object or interface. -/
structure FieldDefinition where
  position : Position
  description : Option String
  name : String
  arguments : List InputValueDefinition
  type : TypeExpr
  annotations : List Annotation
  deriving Repr, Inhabited

/- A value of an enum. -/
structure EnumValueDefinition where
  position : Position
  description : Option String
  name : String
  annotations : List Annotation
  deriving Repr, Inhabited

------------------------------------------------------------
-- Definitions
------------------------------------------------------------

/- What a definition or extension adds to a type of a kind. -/
inductive TypeContent where
  | scalar
  | object
      (interfaces : List String)
      (fields : List FieldDefinition)
  | interface
      (interfaces : List String)
      (fields : List FieldDefinition)
  | union (members : List String)
  | enum (values : List EnumValueDefinition)
  | inputObject (fields : List InputValueDefinition)
  deriving Repr, Inhabited

/- The definition of a type. -/
structure TypeDefinition where
  position : Position
  description : Option String
  name : String
  annotations : List Annotation
  content : TypeContent
  deriving Repr, Inhabited

/- An extension of a type. -/
structure TypeExtension where
  position : Position
  name : String
  annotations : List Annotation
  content : TypeContent
  deriving Repr, Inhabited

/- The definition of a directive. -/
structure DirectiveDefinition where
  position : Position
  description : Option String
  name : String
  arguments : List InputValueDefinition
  repeatable : Bool
  locations : List String
  deriving Repr, Inhabited

/- A block that names the root operation types. -/
structure SchemaBlock where
  position : Position
  annotations : List Annotation
  query : Option String
  mutation : Option String
  subscription : Option String
  deriving Repr, Inhabited

/- A definition of a type system document. -/
inductive TypeSystemDefinition where
  | schema (block : SchemaBlock)
  | type (definition : TypeDefinition)
  | extension (extension : TypeExtension)
  | directive (definition : DirectiveDefinition)
  deriving Repr, Inhabited

/- The definitions of a type system document, in order. -/
abbrev TypeSystemDocument := List TypeSystemDefinition

end GraphQL
