import GraphQL.TypeSystem.Definition

/-
  Decorators: changes to types on their way into a schema.

  A decorator may declare which types and fields it expects.
  A resolver map is a decorator that attaches hooks by name.

  Key definitions include:
    * `Decorator`
    * `ResolverMap`, `ResolverMap.decorate`
-/

------------------------------------------------------------
-- Decorators
------------------------------------------------------------

namespace GraphQL

/- A change to types, and the names it expects to meet. -/
structure Decorator where
  decorate : TypeDef → TypeDef
  types : List String
  fields : String → List String

/- A decorator that expects nothing. -/
def Decorator.ofFunction (decorate : TypeDef → TypeDef) :
    Decorator :=
  ⟨decorate, [], fun _ => []⟩

------------------------------------------------------------
-- Resolver Maps
------------------------------------------------------------

/- The hooks that a resolver map has for one type. -/
structure TypeHooks where
  fields : Entries Hook
  isTypeOf : Option Hook
  resolveField : Option Hook
  resolveType : Option Hook
  deriving Repr, Inhabited

/- Hooks by the names of types and fields. -/
abbrev ResolverMap := Entries TypeHooks

namespace ResolverMap

/- No hooks. -/
def noHooks : TypeHooks :=
  ⟨[], none, none, none⟩

/- Change the hooks of a type. -/
def update
    (map : ResolverMap)
    (type : String)
    (f : TypeHooks → TypeHooks) : ResolverMap :=
  map.insert type (f ((map.get? type).getD noHooks))

/- Resolve a field of a type. -/
def resolver
    (map : ResolverMap)
    (type field : String)
    (hook : Hook) : ResolverMap :=
  map.update type fun hooks =>
    { hooks with fields := hooks.fields.insert field hook }

/- Decide whether values are of an object type. -/
def isTypeOf (map : ResolverMap) (type : String) (hook : Hook) :
    ResolverMap :=
  map.update type fun hooks =>
    { hooks with isTypeOf := some hook }

/- Resolve the fields of a type that have no resolver. -/
def resolveField
    (map : ResolverMap)
    (type : String)
    (hook : Hook) : ResolverMap :=
  map.update type fun hooks =>
    { hooks with resolveField := some hook }

/- Name the object types of values of an abstract type. -/
def resolveType
    (map : ResolverMap)
    (type : String)
    (hook : Hook) : ResolverMap :=
  map.update type fun hooks =>
    { hooks with resolveType := some hook }

/- Fields with the resolvers that are given for them. -/
def decorateFields
    (resolvers : Entries Hook)
    (fields : Entries OutputField) : Entries OutputField :=
  fields.map fun (name, field) =>
    match resolvers.get? name with
    | some hook => (name, { field with resolver := some hook })
    | none => (name, field)

/- A body with the hooks that are given for it. -/
def decorateShape (hooks : TypeHooks) (shape : FieldShape) :
    FieldShape :=
  { shape with
    fields := decorateFields hooks.fields shape.fields
    resolveField := hooks.resolveField.or shape.resolveField }

/- A type with the hooks that are given for it. -/
def decorate (map : ResolverMap) (type : TypeDef) : TypeDef :=
  match map.get? type.name with
  | none => type
  | some hooks =>
      match type with
      | .object type =>
          .object
            { type with
              shape := decorateShape hooks type.shape
              isTypeOf := hooks.isTypeOf.or type.isTypeOf }
      | .interface type =>
          .interface
            { type with
              shape := decorateShape hooks type.shape
              resolveType :=
                hooks.resolveType.or type.resolveType }
      | .union type =>
          .union
            { type with
              resolveType :=
                hooks.resolveType.or type.resolveType }
      | type => type

/- The fields that have a resolver in the map. -/
def fieldNames (map : ResolverMap) (type : String) :
    List String :=
  match map.get? type with
  | some hooks => hooks.fields.names
  | none => []

/- A map as a decorator that expects what it names. -/
def decorator (map : ResolverMap) : Decorator :=
  ⟨map.decorate, map.names, map.fieldNames⟩

end ResolverMap

end GraphQL
