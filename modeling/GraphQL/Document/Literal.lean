import GraphQL.Json.Basic

/-
  Positions, literals, type expressions and annotations, which
  executable documents and type system documents share.

  Key definitions include:
    * `Position`
    * `Literal`, `Literal.same`, `Literal.toJson`
    * `TypeExpr`
    * `Annotation`
-/

------------------------------------------------------------
-- Positions
------------------------------------------------------------

namespace GraphQL

/- A line and a column of a document, both counted from one. -/
structure Position where
  line : Nat
  column : Nat
  deriving DecidableEq, Repr, Inhabited

------------------------------------------------------------
-- Literals
------------------------------------------------------------

/- A value written in a document. -/
inductive Literal where
  | variable (name : String)
  | int (value : Int)
  | float (value : Binary64.Extended)
  | string (value : String)
  | boolean (value : Bool)
  | null
  | enum (name : String)
  | list (items : List Literal)
  | object (entries : List (String × Literal))
  deriving Repr, Inhabited

namespace Literal

/- Whether a literal is the null literal. -/
def isNull : Literal → Bool
| null => true
| _ => false

mutual

/- Equality of literals; floats are compared as values. -/
def same : Literal → Literal → Bool
| .variable a, .variable b => a == b
| int a, int b => a == b
| float a, float b => a.same b
| string a, string b => a == b
| boolean a, boolean b => a == b
| null, null => true
| enum a, enum b => a == b
| list as, list bs => sameItems as bs
| object as, object bs => sameEntries as bs
| _, _ => false

/- Pairwise equality of items. -/
def sameItems : List Literal → List Literal → Bool
| [], [] => true
| a :: as, b :: bs => same a b && sameItems as bs
| _, _ => false

/- Pairwise equality of entries. -/
def sameEntries :
    List (String × Literal) → List (String × Literal) → Bool
| [], [] => true
| (name, a) :: as, (other, b) :: bs =>
    name == other && same a b && sameEntries as bs
| _, _ => false

end

/- Equality of optional literals. -/
def sameOption : Option Literal → Option Literal → Bool
| none, none => true
| some a, some b => a.same b
| _, _ => false

mutual

/-
  The JSON value of a literal, without regard to its type:
  variables are replaced by their values, absent ones and
  infinite floats by null, and enum names become strings.
-/
def toJson (bindings : Entries Json) : Literal → Json
| .variable name => (bindings.get? name).getD .null
| int value => .ofInt value
| float (.finite value) => .ofFraction value
| float (.infinite _) => .null
| string value => .string value
| boolean value => .bool value
| null => .null
| enum name => .string name
| list items => .array (toJsonItems bindings items)
| object entries =>
    .object (Entries.ofList (toJsonEntries bindings entries))

/- JSON values of the items of a list. -/
def toJsonItems (bindings : Entries Json) :
    List Literal → List Json
| [] => []
| item :: rest =>
    toJson bindings item :: toJsonItems bindings rest

/- JSON values of the entries of an object. -/
def toJsonEntries (bindings : Entries Json) :
    List (String × Literal) → List (String × Json)
| [] => []
| (name, value) :: rest =>
    (name, toJson bindings value) ::
      toJsonEntries bindings rest

end

end Literal

------------------------------------------------------------
-- Type Expressions
------------------------------------------------------------

/- A type as written. -/
inductive TypeExpr where
  | named (name : String)
  | list (inner : TypeExpr)
  | nonNull (inner : TypeExpr)
  deriving DecidableEq, Repr, Inhabited

/- The name below all wrappers. -/
def TypeExpr.innermost : TypeExpr → String
| named name => name
| list inner => inner.innermost
| nonNull inner => inner.innermost

------------------------------------------------------------
-- Annotations
------------------------------------------------------------

/- A directive applied to an element of a document. -/
structure Annotation where
  position : Position
  name : String
  arguments : List (String × Literal)
  deriving Repr, Inhabited

end GraphQL
