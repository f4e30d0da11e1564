import GraphQL.Number.Binary64

/-
  Decimal text of binary floating-point numbers.

  Reading rounds the exact decimal value once. Writing takes
  the fewest digits that read back to the same number and, of
  those, the nearest: for one, two, ... seventeen digits it
  tests the two neighbours of the number on that decimal grid.

  Key definitions include:
    * `Decimal`, `Decimal.round`
    * `Binary64.shortest`
    * `Decimal.positional`, `Decimal.scientific`
-/

------------------------------------------------------------
-- Decimals
------------------------------------------------------------

namespace GraphQL

/- The number `± digits * 10 ^ exponent`. -/
structure Decimal where
  negative : Bool
  digits : Nat
  exponent : Int
  deriving DecidableEq, Repr, Inhabited

/- The value of a run of decimal digits, read left to right. -/
def digitsValue (cs : List Char) : Nat :=
  cs.foldl (fun acc c => acc * 10 + (c.toNat - '0'.toNat)) 0

/- Decimal digits of a natural number. -/
def digitsText (n : Nat) : List Char :=
  Nat.toDigits 10 n

namespace Decimal

/- Decimal digits a number may have before it leaves the range. -/
def rangeLimit : Int := 400

/-
  The nearest binary number. Values far outside the range are
  decided by their magnitude alone.
-/
def round (d : Decimal) : Binary64.Extended :=
  if d.digits = 0 then
    .finite (.zero d.negative)
  else
    let top := ((digitsText d.digits).length : Int) + d.exponent
    if rangeLimit < top then
      .infinite d.negative
    else if top < -rangeLimit then
      .finite (.zero d.negative)
    else
      Binary64.Extended.ofRatio d.negative
        (d.digits * tenTo d.exponent.toNat)
        (tenTo (-d.exponent).toNat)

/- Move trailing zeros of the digits into the exponent. -/
def trim (fuel : Nat) (d : Decimal) : Decimal :=
  match fuel with
  | 0 => d
  | fuel + 1 =>
      if d.digits ≠ 0 ∧ d.digits % 10 = 0 then
        trim fuel
          { d with
            digits := d.digits / 10
            exponent := d.exponent + 1 }
      else
        d

end Decimal

------------------------------------------------------------
-- Fewest Digits
------------------------------------------------------------

/- Which of two equally near candidates is written. -/
inductive Tie where
  | toEven
  | up
  deriving DecidableEq, Repr

namespace Binary64

/-
  The number as a multiple of a quarter of its last unit, and
  the ends of the interval that rounds to it. Below a power of
  two the neighbouring numbers lie twice as close.
-/
def quarters (x : Binary64) : Nat × Nat × Nat :=
  let low :=
    if x.significand = twoTo 52 ∧ minExponent < x.exponent then
      1
    else
      2
  (4 * x.significand - low, 4 * x.significand,
    4 * x.significand + 2)

/-
  Scale factors that bring a decimal grid of unit `10 ^ u` and
  the quarter units of a number to a common measure.
-/
def commonMeasure (x : Binary64) (u : Int) : Nat × Nat :=
  let q := x.exponent - 2
  (tenTo u.toNat * twoTo (-q).toNat,
    twoTo q.toNat * tenTo (-u).toNat)

/-
  The multiple of `10 ^ u` nearest to the number, if a
  neighbour on that grid reads back to the number. The ends of
  the interval read back when the significand is even.
-/
def onGrid? (tie : Tie) (x : Binary64) (u : Int) : Option Nat :=
  let scale := commonMeasure x u
  let (low, value, high) := quarters x
  let low := low * scale.2
  let value := value * scale.2
  let high := high * scale.2
  let inside (n : Nat) : Bool :=
    let place := n * scale.1
    if x.significand % 2 = 0 then
      low ≤ place && place ≤ high
    else
      low < place && place < high
  let below := value / scale.1
  let above := below + 1
  let down := value - below * scale.1
  let up := above * scale.1 - value
  match inside below, inside above with
  | true, true =>
      if down < up then
        some below
      else if up < down then
        some above
      else
        match tie with
        | .toEven => some (if below % 2 = 0 then below else above)
        | .up => some above
  | true, false => some below
  | false, true => some above
  | false, false => none

/- The power of ten of the leading decimal digit. -/
def leadingExponent (x : Binary64) : Int :=
  let ratio := x.magnitude
  let guess : Int :=
    ((digitsText ratio.1).length : Int) -
      (digitsText ratio.2).length
  let reaches : Bool :=
    ratio.2 * tenTo guess.toNat ≤ ratio.1 * tenTo (-guess).toNat
  if reaches then guess else guess - 1

/-
  The decimal with the fewest digits that rounds to the number;
  seventeen digits always suffice.
-/
def shortest (tie : Tie) (x : Binary64) : Decimal :=
  if x.significand = 0 then
    ⟨x.negative, 0, 0⟩
  else
    let top := x.leadingExponent
    let found :=
      (List.range 17).findSome? fun (count : Nat) =>
        let u := top - (count : Int)
        (onGrid? tie x u).map fun digits =>
          ({ negative := x.negative
             digits := digits
             exponent := u } : Decimal)
    (found.getD ⟨x.negative, 0, 0⟩).trim 20

end Binary64

------------------------------------------------------------
-- Notation
------------------------------------------------------------

namespace Decimal

/- The sign, as written. -/
def sign (d : Decimal) : List Char :=
  if d.negative then ['-'] else []

/- The power of ten of the leading digit. -/
def magnitude (d : Decimal) : Int :=
  ((digitsText d.digits).length : Int) - 1 + d.exponent

/-
  Digits with a decimal point and without an exponent. A number
  without fractional digits ends in the given text.
-/
def positional (whole : List Char) (d : Decimal) : String :=
  let text := digitsText d.digits
  let body :=
    if 0 ≤ d.exponent then
      text ++ List.replicate d.exponent.toNat '0' ++ whole
    else
      let places := (-d.exponent).toNat
      if places < text.length then
        text.take (text.length - places) ++ ['.'] ++
          text.drop (text.length - places)
      else
        ['0', '.'] ++
          List.replicate (places - text.length) '0' ++ text
  String.ofList (d.sign ++ body)

/-
  One digit before the point and a signed exponent; a single
  digit stands without a point.
-/
def scientific (d : Decimal) : String :=
  let text := digitsText d.digits
  let mantissa :=
    match text with
    | [] => []
    | [digit] => [digit]
    | digit :: rest => digit :: '.' :: rest
  let e := d.magnitude
  let exponent :=
    'e' :: (if e < 0 then '-' else '+') :: digitsText e.natAbs
  String.ofList (d.sign ++ mantissa ++ exponent)

end Decimal

end GraphQL
