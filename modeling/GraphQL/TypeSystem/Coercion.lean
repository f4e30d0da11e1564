import GraphQL.TypeSystem.Definition
import GraphQL.Json.CanonicalKey

/-
  Coercion of values of enums, scalars and leaf types at large.

  Internal values of an enum are told apart by their canonical
  keys; of several values with one key the first counts.

  Key definitions include:
    * `EnumType.value?`, `EnumType.internal?`
    * `NamedType.serialize`
    * `NamedType.parseValue`, `NamedType.parseLiteral`
-/

------------------------------------------------------------
-- Enums
------------------------------------------------------------

namespace GraphQL

namespace EnumType

/- The value of a name. -/
def value? (type : EnumType) (name : String) :
    Option EnumValue :=
  type.values.find? fun value => value.name == name

/- The first value with an internal representation. -/
def internal? (type : EnumType) (internal : Json) :
    Option EnumValue :=
  type.values.find? fun value =>
    value.value.canonicalKey == internal.canonicalKey

/- The names of values that resemble a text. -/
def resembling (type : EnumType) (text : String) :
    List String :=
  Suggestion.closest text (type.values.map EnumValue.name)

/- The name of an internal value. -/
def serialize (type : EnumType) (internal : Json) :
    Except LeafError Json :=
  match type.internal? internal with
  | some value => .ok (.string value.name)
  | none => .error (.enumInternal internal.text)

/- The internal value of a name. -/
def parseName (type : EnumType) (name : String) :
    Except LeafError Json :=
  match type.value? name with
  | some value => .ok value.value
  | none =>
      .error
        (.enumUnknown type.name name (type.resembling name))

/- The internal value of a runtime value. -/
def parseValue (type : EnumType) (value : Json) :
    Except LeafError Json :=
  match value with
  | .string name => type.parseName name
  | _ => .error (.enumNotString type.name value.text)

/- The internal value of a literal. -/
def parseLiteral (type : EnumType) (literal : Literal) :
    Except LeafError Json :=
  match literal with
  | .enum name => type.parseName name
  | _ =>
      .error
        (.enumNotLiteral type.name literal.text
          (type.resembling literal.text))

end EnumType

------------------------------------------------------------
-- Leaf Types
------------------------------------------------------------

namespace NamedType

/- Types of other kinds have no values of their own. -/
def notLeaf (type : NamedType) : Except LeafError Json :=
  .error (.notLeaf type.kind type.name)

/- The form of an internal value in a response. -/
def serialize (type : NamedType) (value : Json) :
    Except LeafError Json :=
  match type with
  | builtin scalar => scalar.serialize value
  | defined (.enum type) => type.serialize value
  | defined (.scalar type) =>
      match type.serialize with
      | some f => f value
      | none => .ok value
  | type => type.notLeaf

/- The internal value of a runtime value. -/
def parseValue (type : NamedType) (value : Json) :
    Except LeafError Json :=
  match type with
  | builtin scalar => scalar.parseValue value
  | defined (.enum type) => type.parseValue value
  | defined (.scalar type) =>
      match type.parseValue with
      | some f => f value
      | none => .ok value
  | type => type.notLeaf

/- The internal value of a literal. -/
def parseLiteral
    (type : NamedType)
    (literal : Literal)
    (bindings : Entries Json) : Except LeafError Json :=
  match type with
  | builtin scalar => scalar.parseLiteral literal
  | defined (.enum type) => type.parseLiteral literal
  | defined (.scalar type) =>
      match type.parseLiteral with
      | some f => f literal bindings
      | none => .ok (literal.toJson bindings)
  | type => type.notLeaf

end NamedType

end GraphQL
