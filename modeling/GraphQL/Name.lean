/-
  Names of types, fields, arguments and enum values.

  Key definitions include:
    * `Name.isValid`
    * `Name.isReserved`
-/

------------------------------------------------------------
-- Names
------------------------------------------------------------

namespace GraphQL

namespace Name

/- Characters a name may start with. -/
def starts (c : Char) : Bool :=
  c == '_' || c.isAlpha

/- Characters a name may go on with. -/
def goesOn (c : Char) : Bool :=
  c == '_' || c.isAlphanum

/- Whether a text is a name. -/
def isValid (text : String) : Bool :=
  match text.toList with
  | [] => false
  | c :: rest => starts c && rest.all goesOn

/- Names with two leading underscores belong to introspection. -/
def isReserved (text : String) : Bool :=
  ['_', '_'].isPrefixOf text.toList

end Name

end GraphQL
