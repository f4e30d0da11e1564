import GraphQL.Location

/-
  References to types, with list and non-null wrappers.

  Key definitions include:
    * `TypeRef`, `TypeRef.ofExpr`
    * `TypeRef.text`, `TypeRef.ofText`
    * `TypeRef.same`: equality up to locations
-/

------------------------------------------------------------
-- References
------------------------------------------------------------

namespace GraphQL

/-
  A reference to a type. Nullability is part of each layer.
-/
inductive TypeRef where
  | named
      (name : String)
      (nullable : Bool)
      (location : SourceLocation)
  | list
      (inner : TypeRef)
      (nullable : Bool)
      (location : SourceLocation)
  deriving DecidableEq, Repr, Inhabited

namespace TypeRef

/- Whether the outermost layer admits null. -/
def nullable : TypeRef → Bool
| named _ nullable _ => nullable
| list _ nullable _ => nullable

/- Where the reference stands. -/
def location : TypeRef → SourceLocation
| named _ _ location => location
| list _ _ location => location

/- The name below all wrappers. -/
def innermost : TypeRef → String
| named name _ _ => name
| list inner _ _ => inner.innermost

/- The reference an expression denotes, with nullability. -/
def ofExprWith (location : SourceLocation) (nullable : Bool) :
    TypeExpr → TypeRef
| .named name => named name nullable location
| .list inner =>
    list (ofExprWith location true inner) nullable location
| .nonNull inner => ofExprWith location false inner

/- The reference an expression denotes. -/
def ofExpr (location : SourceLocation) (expr : TypeExpr) :
    TypeRef :=
  ofExprWith location true expr

/- The mark of a layer that does not admit null. -/
def bang (nullable : Bool) : String :=
  if nullable then "" else "!"

/- The text of a reference. -/
def text : TypeRef → String
| named name nullable _ => name ++ bang nullable
| list inner nullable _ =>
    "[" ++ inner.text ++ "]" ++ bang nullable

/- Same wrappers, nullability and name, wherever it stands. -/
def same : TypeRef → TypeRef → Bool
| named a nullable _, named b nullable' _ =>
    nullable == nullable' && a == b
| list a nullable _, list b nullable' _ =>
    nullable == nullable' && a.same b
| _, _ => false

/- A reference made by a program. -/
def ofName (name : String) (nullable : Bool) : TypeRef :=
  named name nullable .programmatic

/- A list reference made by a program. -/
def ofList (inner : TypeRef) (nullable : Bool) : TypeRef :=
  list inner nullable .programmatic

/-
  The reference that characters spell: a last `!` excludes null,
  brackets make a list, and anything else is a name as it stands.
-/
def ofChars (cs : List Char) : TypeRef :=
  let nullable := cs.getLast? != some '!'
  let bare := if nullable then cs else cs.dropLast
  match _hBare : bare with
  | '[' :: rest =>
      if rest.getLast? = some ']' then
        ofList (ofChars rest.dropLast) nullable
      else
        ofName (String.ofList bare) nullable
  | _ => ofName (String.ofList bare) nullable
termination_by cs.length
decreasing_by
  have hShort : bare.length ≤ cs.length := by
    simp only [bare]
    split <;> simp
  have hRest : bare.length = rest.length + 1 := by
    simp [_hBare]
  simp only [List.length_dropLast]
  omega

/- The reference that a text spells. -/
def ofText (text : String) : TypeRef :=
  ofChars text.toList

end TypeRef

end GraphQL
