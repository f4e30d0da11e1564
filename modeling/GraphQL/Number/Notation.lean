import GraphQL.Number.Decimal

/-
  Numbers written as loosely as strings may hold them: signs of
  either kind, and a decimal point with digits on either side.

  Key definitions include:
    * `Notation.integer?`
    * `Notation.decimal?`
-/

------------------------------------------------------------
-- Parts
------------------------------------------------------------

namespace GraphQL

namespace Notation

/- A sign, if there is one, and what follows it. -/
def sign (cs : List Char) : Bool × List Char :=
  match cs with
  | '-' :: rest => (true, rest)
  | '+' :: rest => (false, rest)
  | _ => (false, cs)

/- The value of a nonempty run of digits. -/
def natural? (cs : List Char) : Option Nat :=
  if !cs.isEmpty && cs.all Char.isDigit then
    some (digitsValue cs)
  else
    none

/- A signed integer. -/
def integer? (cs : List Char) : Option Int :=
  let (negative, digits) := sign cs
  (natural? digits).map fun n =>
    if negative then -(n : Int) else n

/- An exponent with its letter, if there is one. -/
def exponent? (cs : List Char) : Option Int :=
  match cs with
  | [] => some 0
  | c :: rest =>
      if c = 'e' ∨ c = 'E' then integer? rest else none

/- A signed decimal with digits before or after the point. -/
def decimal? (cs : List Char) : Option Decimal := do
  let (negative, body) := sign cs
  let whole := body.takeWhile Char.isDigit
  let rest := body.dropWhile Char.isDigit
  let (places, rest) :=
    match rest with
    | '.' :: rest =>
        (rest.takeWhile Char.isDigit, rest.dropWhile Char.isDigit)
    | _ => ([], rest)
  if whole.isEmpty ∧ places.isEmpty then
    none
  else
    let e ← exponent? rest
    return ⟨negative, digitsValue (whole ++ places),
      e - places.length⟩

end Notation

end GraphQL
