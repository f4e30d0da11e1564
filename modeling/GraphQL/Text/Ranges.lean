/-
  Ranges of code points.

  A class of characters is given by a table of ranges, in
  increasing order.

  Key definitions include:
    * `Text.Ranges`, `Text.within`
-/

------------------------------------------------------------
-- Ranges
------------------------------------------------------------

namespace GraphQL

namespace Text

/- Ranges of code points, both ends included. -/
abbrev Ranges := List (Nat × Nat)

/- Whether a character lies in one of the ranges. -/
def within (table : Ranges) (c : Char) : Bool :=
  table.any fun range => range.1 ≤ c.toNat && c.toNat ≤ range.2

end Text

end GraphQL
