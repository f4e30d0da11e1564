import GraphQL.Json.Basic

/-
  Records as JSON values.

  A record is written as an object. It is read from an object,
  whose unknown members are ignored, or from an array that
  lists the fields in order and may stop before the fields that
  have defaults.

  Key definitions include:
    * `Json.slots?`: the fields found in a value
    * `Json.readNat?`, `Json.readString?`, `Json.readList?`
-/

------------------------------------------------------------
-- Reading
------------------------------------------------------------

namespace GraphQL

namespace Json

/-
  The values of the named fields of a record, in order. An
  array holds at least the required number of fields.
-/
def slots? (names : List String) (required : Nat) :
    Json → Option (List (Option Json))
| object members =>
    some (names.map fun name => Entries.get? members name)
| array items =>
    if required ≤ items.length ∧ items.length ≤ names.length
    then
      some (items.map some ++
        List.replicate (names.length - items.length) none)
    else
      none
| _ => none

/- A natural number that fits in 64 bits. -/
def readNat? : Json → Option Nat
| number (.integer n) => if 0 ≤ n then some n.toNat else none
| _ => none

/- A string. -/
def readString? : Json → Option String :=
  string?

/- A string, or nothing for null. -/
def readOptionalString? : Json → Option (Option String)
| null => some none
| string value => some (some value)
| _ => none

/- An array of values that can all be read. -/
def readList? {α : Type} (item : Json → Option α) :
    Json → Option (List α)
| array items => items.mapM item
| _ => none

/- A field that is empty unless it is present. -/
def readListOr? {α : Type} (item : Json → Option α) :
    Option Json → Option (List α)
| none => some []
| some value => readList? item value

------------------------------------------------------------
-- Writing
------------------------------------------------------------

/- A natural number. -/
def ofNat (n : Nat) : Json :=
  ofInt n

/- A field that is left out when the list is empty. -/
def nonEmptyField {α : Type} (name : String)
    (item : α → Json) (items : List α) :
    List (String × Json) :=
  if items.isEmpty then
    []
  else
    [(name, array (items.map item))]

end Json

end GraphQL
