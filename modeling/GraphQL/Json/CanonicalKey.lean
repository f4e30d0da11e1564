import GraphQL.Json.Basic

/-
  Keys that identify JSON values up to the order of members.

  Key definitions include:
    * `Json.canonicalKey`
-/

------------------------------------------------------------
-- Canonical Keys
------------------------------------------------------------

namespace GraphQL

namespace Json

mutual

/-
  The compact text of a value whose objects are written with
  their members sorted by name.
-/
def canonicalKey : Json → String
| array items =>
    "[" ++ ",".intercalate (itemKeys items) ++ "]"
| object members =>
    let sorted :=
      (memberKeys members).mergeSort fun a b => a.1 ≤ b.1
    let parts := sorted.map fun entry =>
      Text.jsonQuoted entry.1 ++ ":" ++ entry.2
    "\x7b" ++ ",".intercalate parts ++ "\x7d"
| scalar => scalar.text

/- Keys of the items of an array. -/
def itemKeys : List Json → List String
| [] => []
| item :: rest => canonicalKey item :: itemKeys rest

/- Names and value keys of the members of an object. -/
def memberKeys : List (String × Json) → List (String × String)
| [] => []
| (name, value) :: rest =>
    (name, canonicalKey value) :: memberKeys rest

end

end Json

end GraphQL
