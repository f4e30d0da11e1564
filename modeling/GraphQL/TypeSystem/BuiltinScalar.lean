import GraphQL.TypeSystem.Leaf
import GraphQL.Number.Notation
import GraphQL.Document.LiteralText

/-
  The five built-in scalar types and their coercions.

  Key definitions include:
    * `BuiltinScalar`
    * `BuiltinScalar.serialize`
    * `BuiltinScalar.parseValue`, `BuiltinScalar.parseLiteral`
-/

------------------------------------------------------------
-- Scalars
------------------------------------------------------------

namespace GraphQL

/- The built-in scalar types. -/
inductive BuiltinScalar where
  | boolean
  | float
  | id
  | int
  | string
  deriving DecidableEq, Repr, Inhabited

namespace BuiltinScalar

/- All built-in scalars, in the order of a type graph. -/
def all : List BuiltinScalar :=
  [boolean, float, id, int, string]

def kind : BuiltinScalar → TypeKind
| boolean => .boolean
| float => .float
| id => .id
| int => .int
| string => .string

def name (scalar : BuiltinScalar) : String :=
  scalar.kind.name

/- The scalar of a name. -/
def ofName? (name : String) : Option BuiltinScalar :=
  all.find? fun scalar => scalar.name == name

def description : BuiltinScalar → String
| boolean =>
    "The `Boolean` scalar type represents `true` or `false`."
| float =>
    "The `Float` scalar type represents signed " ++
    "double-precision fractional values as specified by " ++
    "[IEEE 754]" ++
    "(http://en.wikipedia.org/wiki/IEEE_floating_point)."
| id =>
    "The `ID` scalar type represents a unique identifier, " ++
    "often used to refetch an object or as key for a cache. " ++
    "The ID type appears in a JSON response as a String; " ++
    "however, it is not intended to be human-readable. When " ++
    "expected as an input type, any string (such as `\"4\"`) " ++
    "or integer (such as `4`) input value will be accepted " ++
    "as an ID."
| int =>
    "The `Int` scalar type represents non-fractional signed " ++
    "whole numeric values. Int can represent values between " ++
    "-(2^31) and 2^31 - 1."
| string =>
    "The `String` scalar type represents textual data, " ++
    "represented as UTF-8 character sequences. The String " ++
    "type is most often used by GraphQL to represent " ++
    "free-form human-readable text."

------------------------------------------------------------
-- Integers
------------------------------------------------------------

/- Whether an integer has at most 32 bits. -/
def fits32 (n : Int) : Bool :=
  -twoTo 31 ≤ n && n < twoTo 31

/-
  The integer a fraction denotes, cut off at the greatest
  signed 64-bit integer.
-/
def wholeFraction? (x : Binary64) : Option Int :=
  match x.integer? with
  | some n =>
      if n.natAbs ≤ twoTo 63 then
        some (min n Json.maxSigned)
      else
        none
  | none => none

/-
  The signed 64-bit integer a number denotes. Integers beyond
  that range are rounded to fractions first.
-/
def whole? : Json.Number → Option Int
| .integer n =>
    if n ≤ Json.maxSigned then
      some n
    else
      match (Binary64.Extended.ofInt n).finite? with
      | some x => wholeFraction? x
      | none => none
| .fraction x => wholeFraction? x

/- A text without the blanks at its ends. -/
def trimmed (text : String) : List Char :=
  ((text.toList.dropWhile Text.isBlank).reverse.dropWhile
    Text.isBlank).reverse

/- The signed 64-bit integer a text denotes. -/
def wholeText? (text : String) : Option Int :=
  match Notation.integer? (trimmed text) with
  | some n =>
      if Json.minInteger ≤ n ∧ n ≤ Json.maxSigned then
        some n
      else
        none
  | none => none

/- The finite fraction a text denotes. -/
def fractionText? (text : String) : Option Binary64 := do
  let decimal ← Notation.decimal? (trimmed text)
  decimal.round.finite?

/- The fraction nearest to a number. -/
def fraction? : Json.Number → Option Binary64
| .integer n => (Binary64.Extended.ofInt n).finite?
| .fraction x => some x

/- A 32-bit integer as a value. -/
def int32 (n : Int) (printed : String) :
    Except LeafError Json :=
  if fits32 n then
    .ok (.ofInt n)
  else
    .error (.scalar .integer32 printed)

------------------------------------------------------------
-- Output
------------------------------------------------------------

/- A value as a fraction. -/
def serializeFloat (value : Json) : Except LeafError Json :=
  let fraction? :=
    match value with
    | .number n => fraction? n
    | .bool b =>
        (Binary64.Extended.ofInt (if b then 1 else 0)).finite?
    | .string text => fractionText? text
    | _ => none
  match fraction? with
  | some x => .ok (.ofFraction x)
  | none => .error (.scalar .numeric value.text)

/- A value as an identifier. -/
def serializeId (value : Json) : Except LeafError Json :=
  match value with
  | .string text => .ok (.string text)
  | .number n =>
      match whole? n with
      | some n => .ok (.string (toString n))
      | none => .error (.scalar .id value.text)
  | _ => .error (.scalar .id value.text)

/- A value as a 32-bit integer. -/
def serializeInt (value : Json) : Except LeafError Json :=
  let whole? :=
    match value with
    | .number n => whole? n
    | .bool b => some (if b then 1 else 0)
    | .string text => wholeText? text
    | _ => none
  match whole? with
  | some n => int32 n value.text
  | none => .error (.scalar .integer value.text)

/- A value as a string. -/
def serializeString (value : Json) : Except LeafError Json :=
  match value with
  | .string text => .ok (.string text)
  | .number n => .ok (.string n.text)
  | .bool b => .ok (.string (if b then "true" else "false"))
  | _ => .error (.scalar .stringOutput value.text)

/- The form of an internal value in a response. -/
def serialize (scalar : BuiltinScalar) (value : Json) :
    Except LeafError Json :=
  match scalar with
  | boolean => .ok (.bool value.isTruthy)
  | float => serializeFloat value
  | id => serializeId value
  | int => serializeInt value
  | string => serializeString value

------------------------------------------------------------
-- Input
------------------------------------------------------------

/- The internal value of a runtime value. -/
def parseValue (scalar : BuiltinScalar) (value : Json) :
    Except LeafError Json :=
  match scalar, value with
  | boolean, .bool b => .ok (.bool b)
  | boolean, _ => .error (.scalar .boolean value.text)
  | float, .number n => .ok (.number n)
  | float, _ => .error (.scalar .numeric value.text)
  | id, .string text => .ok (.string text)
  | id, .number (.integer n) => .ok (.string (toString n))
  | id, _ => .error (.scalar .id value.text)
  | int, .number n =>
      match whole? n with
      | some n => int32 n value.text
      | none => .error (.scalar .integer value.text)
  | int, _ => .error (.scalar .integer value.text)
  | string, .string text => .ok (.string text)
  | string, _ => .error (.scalar .string value.text)

/- The internal value of a literal. -/
def parseLiteral (scalar : BuiltinScalar) (literal : Literal) :
    Except LeafError Json :=
  match scalar, literal with
  | boolean, .boolean b => .ok (.bool b)
  | boolean, _ => .error (.scalar .boolean literal.text)
  | float, .float (.finite x) => .ok (.ofFraction x)
  | float, .float (.infinite _) => .ok .null
  | float, .int n => .ok (.ofInt n)
  | float, _ => .error (.scalar .numeric literal.text)
  | id, .string text => .ok (.string text)
  | id, .int n => .ok (.string (toString n))
  | id, _ => .error (.scalar .idLiteral literal.text)
  | int, .int n => int32 n literal.text
  | int, _ => .error (.scalar .integer literal.text)
  | string, .string text => .ok (.string text)
  | string, _ => .error (.scalar .string literal.text)

end BuiltinScalar

end GraphQL
