import GraphQL.TypeSystem.BuiltinScalar
import GraphQL.Hook

/-
  Types of a schema and the elements they consist of.

  Key definitions include:
    * `AppliedDirective`, `InputValue`, `OutputField`
    * `TypeHeader`: what types of all kinds have
    * `TypeDef` and one structure for each kind
    * `NamedType`: a built-in scalar or a defined type
-/

------------------------------------------------------------
-- Directives
------------------------------------------------------------

namespace GraphQL

/- A directive applied to an element of a schema. -/
structure AppliedDirective where
  name : String
  arguments : Entries Literal
  location : SourceLocation
  deriving Repr, Inhabited

namespace AppliedDirective

/- The annotations of an element that stands in some text. -/
def ofAnnotations
    (location : SourceLocation)
    (annotations : List Annotation) : List AppliedDirective :=
  annotations.map fun annotation =>
    { name := annotation.name
      arguments := Entries.ofList annotation.arguments
      location := location.moved annotation.position }

/- The reason of a deprecation that gives none. -/
def defaultReason : String := "No longer supported"

/- Why an element is deprecated, if it is. -/
def deprecationReason (directives : List AppliedDirective) :
    Option String :=
  match directives.find? fun d => d.name == "deprecated" with
  | none => none
  | some directive =>
      match directive.arguments.get? "reason" with
      | some (.string reason) => some reason
      | _ => some defaultReason

/- The address that specifies a scalar, if one is given. -/
def specifiedBy (directives : List AppliedDirective) :
    Option String :=
  directives.findSome? fun directive =>
    if directive.name = "specifiedBy" then
      match directive.arguments.get? "url" with
      | some (.string url) => some url
      | _ => none
    else
      none

end AppliedDirective

------------------------------------------------------------
-- Members
------------------------------------------------------------

/- An argument of a field or directive, or an input field. -/
structure InputValue where
  name : String
  type : TypeRef
  default : Option Literal
  description : Option String
  location : SourceLocation
  directives : List AppliedDirective
  deriving Repr, Inhabited

/- Same name, type, default and description. -/
def InputValue.same (a b : InputValue) : Bool :=
  a.name == b.name && a.type.same b.type &&
    Literal.sameOption a.default b.default &&
    a.description == b.description

/- Whether a value has to be given. -/
def InputValue.isRequired (value : InputValue) : Bool :=
  !value.type.nullable && value.default.isNone

/- A field of an object or interface. -/
structure OutputField where
  name : String
  type : TypeRef
  arguments : Entries InputValue
  description : Option String
  deprecation : Option String
  location : SourceLocation
  directives : List AppliedDirective
  metadata : Entries Json
  resolver : Option Hook
  deriving Repr, Inhabited

/- A value of an enum with its internal representation. -/
structure EnumValue where
  name : String
  value : Json
  description : Option String
  deprecation : Option String
  location : SourceLocation
  directives : List AppliedDirective
  deriving Repr, Inhabited

------------------------------------------------------------
-- Types
------------------------------------------------------------

/- What types of all kinds have. -/
structure TypeHeader where
  name : String
  location : SourceLocation
  description : Option String
  directives : List AppliedDirective
  extensions : List SourceLocation
  metadata : Entries Json
  deriving Repr, Inhabited

/- A header made by a program. -/
def TypeHeader.ofName (name : String) : TypeHeader :=
  ⟨name, .programmatic, none, [], [], []⟩

/- Fields and interfaces of an object or interface. -/
structure FieldShape where
  fields : Entries OutputField
  interfaces : List String
  resolveField : Option Hook
  deriving Repr, Inhabited

structure ObjectType where
  header : TypeHeader
  shape : FieldShape
  isTypeOf : Option Hook
  deriving Repr, Inhabited

structure InterfaceType where
  header : TypeHeader
  shape : FieldShape
  resolveType : Option Hook
  deriving Repr, Inhabited

structure UnionType where
  header : TypeHeader
  listed : List String
  resolveType : Option Hook
  deriving Repr, Inhabited

structure EnumType where
  header : TypeHeader
  values : List EnumValue
  deriving Repr, Inhabited

/- A custom scalar; coercions it lacks leave values alone. -/
structure ScalarType where
  header : TypeHeader
  serialize : Option (Json → Except LeafError Json)
  parseValue : Option (Json → Except LeafError Json)
  parseLiteral :
    Option (Literal → Entries Json → Except LeafError Json)
  specifiedBy : Option String
  deriving Inhabited

structure InputObjectType where
  header : TypeHeader
  fields : Entries InputValue
  deriving Repr, Inhabited

/- A type that a document or a program defines. -/
inductive TypeDef where
  | object (type : ObjectType)
  | interface (type : InterfaceType)
  | union (type : UnionType)
  | enum (type : EnumType)
  | scalar (type : ScalarType)
  | inputObject (type : InputObjectType)
  deriving Inhabited

namespace TypeDef

def header : TypeDef → TypeHeader
| object type => type.header
| interface type => type.header
| union type => type.header
| enum type => type.header
| scalar type => type.header
| inputObject type => type.header

/- Change the header. -/
def mapHeader (f : TypeHeader → TypeHeader) : TypeDef → TypeDef
| object type => object { type with header := f type.header }
| interface type =>
    interface { type with header := f type.header }
| union type => union { type with header := f type.header }
| enum type => enum { type with header := f type.header }
| scalar type => scalar { type with header := f type.header }
| inputObject type =>
    inputObject { type with header := f type.header }

def kind : TypeDef → TypeKind
| object _ => .object
| interface _ => .interface
| union _ => .union
| enum _ => .enum
| scalar _ => .scalar
| inputObject _ => .inputObject

def name (type : TypeDef) : String :=
  type.header.name

def location (type : TypeDef) : SourceLocation :=
  type.header.location

/- Changing the header keeps the kind. -/
@[simp]
theorem kind_mapHeader
    (f : TypeHeader → TypeHeader)
    (type : TypeDef) :
    (type.mapHeader f).kind = type.kind := by
  cases type <;> rfl

/- The changed header is the header. -/
@[simp]
theorem header_mapHeader
    (f : TypeHeader → TypeHeader)
    (type : TypeDef) :
    (type.mapHeader f).header = f type.header := by
  cases type <;> rfl

end TypeDef

namespace ObjectType

def name (type : ObjectType) : String :=
  type.header.name

/- A field of an object. -/
def field? (type : ObjectType) (name : String) :
    Option OutputField :=
  type.shape.fields.get? name

/- Whether the object declares an interface. -/
def implements (type : ObjectType) (interface : String) :
    Bool :=
  type.shape.interfaces.contains interface

end ObjectType

def InterfaceType.name (type : InterfaceType) : String :=
  type.header.name

/- Whether the interface declares another interface. -/
def InterfaceType.implements
    (type : InterfaceType) (interface : String) : Bool :=
  type.shape.interfaces.contains interface

def UnionType.name (type : UnionType) : String :=
  type.header.name

/- The members of a union, each once, in the order listed. -/
def UnionType.members (type : UnionType) : List String :=
  type.listed.eraseDups

def EnumType.name (type : EnumType) : String :=
  type.header.name

def InputObjectType.name (type : InputObjectType) : String :=
  type.header.name

------------------------------------------------------------
-- Named Types
------------------------------------------------------------

/- A type of a schema. -/
inductive NamedType where
  | builtin (scalar : BuiltinScalar)
  | defined (type : TypeDef)
  deriving Inhabited

namespace NamedType

def kind : NamedType → TypeKind
| builtin scalar => scalar.kind
| defined type => type.kind

def name : NamedType → String
| builtin scalar => scalar.name
| defined type => type.name

def location : NamedType → SourceLocation
| builtin _ => .builtin
| defined type => type.location

def description : NamedType → Option String
| builtin scalar => some scalar.description
| defined type => type.header.description

/- Interfaces and unions. -/
def isAbstract (type : NamedType) : Bool :=
  type.kind.isAbstract

/- Types that arguments, variables and input fields may have. -/
def isInput : NamedType → Bool
| defined (.interface _) => false
| defined (.object _) => false
| defined (.union _) => false
| _ => true

/- Types that fields may have. -/
def isOutput : NamedType → Bool
| defined (.inputObject _) => false
| _ => true

/- Scalars and enums. -/
def isLeaf : NamedType → Bool
| builtin _ => true
| defined (.enum _) => true
| defined (.scalar _) => true
| _ => false

def object? : NamedType → Option ObjectType
| defined (.object type) => some type
| _ => none

def interface? : NamedType → Option InterfaceType
| defined (.interface type) => some type
| _ => none

/- Fields and interfaces of object and interface types. -/
def shape? : NamedType → Option FieldShape
| defined (.object type) => some type.shape
| defined (.interface type) => some type.shape
| _ => none

def enum? : NamedType → Option EnumType
| defined (.enum type) => some type
| _ => none

end NamedType

end GraphQL
