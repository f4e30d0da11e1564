import GraphQL.TypeSystem.Definition

/-
  Making and editing types by program.

  Edits that do not fit the kind of a type leave it alone, and
  no edit changes the kind.

  Key definitions include:
    * `InputValue.ofName`, `OutputField.ofName`,
      `EnumValue.ofName`
    * `TypeDef.mapShape`, `TypeDef.mapFields`
    * `TypeDef.mapInputFields`, `TypeDef.mapValues`
-/

------------------------------------------------------------
-- Elements
------------------------------------------------------------

namespace GraphQL

/- An argument or input field made by a program. -/
def InputValue.ofName (name : String) (type : TypeRef) :
    InputValue :=
  ⟨name, type, none, none, .programmatic, []⟩

/- A field made by a program. -/
def OutputField.ofName (name : String) (type : TypeRef) :
    OutputField :=
  ⟨name, type, [], none, none, .programmatic, [], [], none⟩

/- A value made by a program; internally it is its name. -/
def EnumValue.ofName (name : String) : EnumValue :=
  ⟨name, .string name, none, none, .programmatic, []⟩

/- A scalar made by a program. -/
def ScalarType.ofName (name : String) : ScalarType :=
  ⟨.ofName name, none, none, none, none⟩

------------------------------------------------------------
-- Edits
------------------------------------------------------------

namespace TypeDef

/- Change the body of an object or interface. -/
def mapShape (f : FieldShape → FieldShape) : TypeDef → TypeDef
| object type => object { type with shape := f type.shape }
| interface type =>
    interface { type with shape := f type.shape }
| type => type

/- Change the fields of an object or interface. -/
def mapFields (f : Entries OutputField → Entries OutputField) :
    TypeDef → TypeDef :=
  mapShape fun shape => { shape with fields := f shape.fields }

/- Change the fields of an input object. -/
def mapInputFields
    (f : Entries InputValue → Entries InputValue) :
    TypeDef → TypeDef
| inputObject type =>
    inputObject { type with fields := f type.fields }
| type => type

/- Change the values of an enum. -/
def mapValues (f : List EnumValue → List EnumValue) :
    TypeDef → TypeDef
| enum type => enum { type with values := f type.values }
| type => type

/- Change a scalar. -/
def mapScalar (f : ScalarType → ScalarType) : TypeDef → TypeDef
| scalar type => scalar (f type)
| type => type

/- Change the members of a union. -/
def mapMembers (f : List String → List String) :
    TypeDef → TypeDef
| union type => union { type with listed := f type.listed }
| type => type

/- Change the hook that recognises values of an object. -/
def mapIsTypeOf (f : Option Hook → Option Hook) :
    TypeDef → TypeDef
| object type => object { type with isTypeOf := f type.isTypeOf }
| type => type

/- Change the hook that resolves an abstract type. -/
def mapResolveType (f : Option Hook → Option Hook) :
    TypeDef → TypeDef
| interface type =>
    interface { type with resolveType := f type.resolveType }
| union type =>
    union { type with resolveType := f type.resolveType }
| type => type

------------------------------------------------------------
-- Kinds
------------------------------------------------------------

@[simp]
theorem kind_mapShape
    (f : FieldShape → FieldShape)
    (type : TypeDef) :
    (type.mapShape f).kind = type.kind := by
  cases type <;> rfl

@[simp]
theorem kind_mapFields
    (f : Entries OutputField → Entries OutputField)
    (type : TypeDef) :
    (type.mapFields f).kind = type.kind :=
  kind_mapShape _ type

@[simp]
theorem kind_mapInputFields
    (f : Entries InputValue → Entries InputValue)
    (type : TypeDef) :
    (type.mapInputFields f).kind = type.kind := by
  cases type <;> rfl

@[simp]
theorem kind_mapValues
    (f : List EnumValue → List EnumValue)
    (type : TypeDef) :
    (type.mapValues f).kind = type.kind := by
  cases type <;> rfl

end TypeDef

end GraphQL
