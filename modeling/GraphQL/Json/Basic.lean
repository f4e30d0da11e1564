import GraphQL.Entries
import GraphQL.Number.Decimal
import GraphQL.Text.Quoted

/-
  JSON values.

  Runtime values of every kind are JSON values. Objects keep
  their members in insertion order. Integers and fractional
  numbers are different values even when they are equal.

  Key definitions include:
    * `Json`, `Json.Number`
    * `Json.text`: the compact text of a value
    * `Json.same`: equality up to the order of members
    * `Json.isTruthy`
-/

------------------------------------------------------------
-- Values
------------------------------------------------------------

namespace GraphQL

/- A JSON number, as an integer or as a binary fraction. -/
inductive Json.Number where
  | integer (value : Int)
  | fraction (value : Binary64)
  deriving DecidableEq, Repr, Inhabited

/- A JSON value. -/
inductive Json where
  | null
  | bool (value : Bool)
  | number (value : Json.Number)
  | string (value : String)
  | array (items : List Json)
  | object (members : List (String × Json))
  deriving Repr, Inhabited

namespace Json

/- Least integer that is kept as an integer. -/
def minInteger : Int := -(twoTo 63 : Int)

/- Greatest integer that is kept as an integer. -/
def maxInteger : Int := (twoTo 64 : Int) - 1

/- Greatest signed 64-bit integer. -/
def maxSigned : Int := (twoTo 63 : Int) - 1

/- An integer value. -/
def ofInt (n : Int) : Json :=
  .number (.integer n)

/- A fractional value. -/
def ofFraction (x : Binary64) : Json :=
  .number (.fraction x)

/- Whether a value is null. -/
def isNull : Json → Bool
| null => true
| _ => false

/- A member of an object; other values have none. -/
def get? : Json → String → Option Json
| object members, key => Entries.get? members key
| _, _ => none

/- The items of an array; other values have none. -/
def items : Json → List Json
| array items => items
| _ => []

/- The members of an object; other values have none. -/
def members : Json → List (String × Json)
| object members => members
| _ => []

/- An object with one member put in; other values count as empty. -/
def insert (value : Json) (key : String) (member : Json) : Json :=
  object (Entries.insert value.members key member)

/- The value of an integer. -/
def integer? : Json → Option Int
| number (.integer n) => some n
| _ => none

/- The text of a string value. -/
def string? : Json → Option String
| string value => some value
| _ => none

/- The truth value of a Boolean value. -/
def bool? : Json → Option Bool
| bool value => some value
| _ => none

------------------------------------------------------------
-- Compact Text
------------------------------------------------------------

/-
  Fractions are positional, with a digit after the point, while
  the leading digit stands between `10 ^ (-5)` and `10 ^ 15`.
-/
def Number.text : Number → String
| integer value => toString value
| fraction value =>
    let decimal := value.shortest .toEven
    if -5 ≤ decimal.magnitude ∧ decimal.magnitude ≤ 15 then
      decimal.positional ['.', '0']
    else
      decimal.scientific

mutual

/- Compact text: no spaces, members in order. -/
def text : Json → String
| null => "null"
| bool true => "true"
| bool false => "false"
| number value => value.text
| string value => Text.jsonQuoted value
| array items => "[" ++ ",".intercalate (itemTexts items) ++ "]"
| object members =>
    "\x7b" ++ ",".intercalate (memberTexts members) ++ "\x7d"

/- Compact texts of the items of an array. -/
def itemTexts : List Json → List String
| [] => []
| item :: rest => text item :: itemTexts rest

/- Compact texts of the members of an object. -/
def memberTexts : List (String × Json) → List String
| [] => []
| (key, value) :: rest =>
    (Text.jsonQuoted key ++ ":" ++ text value) ::
      memberTexts rest

end

------------------------------------------------------------
-- Equality And Truth
------------------------------------------------------------

/- Equality of numbers: kinds differ, the two zeros do not. -/
def Number.same : Number → Number → Bool
| integer a, integer b => a == b
| fraction a, fraction b => a.same b
| _, _ => false

mutual

/- Equality up to the order of members at every level. -/
def same : Json → Json → Bool
| null, null => true
| bool a, bool b => a == b
| number a, number b => a.same b
| string a, string b => a == b
| array as, array bs => sameItems as bs
| object as, object bs =>
    as.length == bs.length && sameMembers as bs
| _, _ => false

/- Pairwise equality of items. -/
def sameItems : List Json → List Json → Bool
| [], [] => true
| a :: as, b :: bs => same a b && sameItems as bs
| _, _ => false

/- Every member has an equal counterpart of its name. -/
def sameMembers :
    List (String × Json) → List (String × Json) → Bool
| [], _ => true
| (key, value) :: rest, others =>
    (match Entries.get? others key with
    | some other => same value other
    | none => false) &&
      sameMembers rest others

end

/-
  Loose truth: null, false, zeros, the empty string, the string
  of one zero and empty containers are false.
-/
def isTruthy : Json → Bool
| null => false
| bool value => value
| number (.integer value) => value != 0
| number (.fraction value) => !value.isZero
| string value => !(value == "" || value == "0")
| array items => !items.isEmpty
| object members => !members.isEmpty

end Json

end GraphQL
