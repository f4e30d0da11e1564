import GraphQL.Number.Power

/-
  Finite numbers of the 64-bit binary floating-point format.

  A number is a sign, a significand and a power of two, with
  exact integer arithmetic underneath. Every operation rounds
  its exact rational result once, to nearest, ties to even.

  Key definitions include:
    * `Binary64`, `Binary64.IsCanonical`
    * `Binary64.Extended.ofRatio`: rounding a quotient
    * `Binary64.integer?`: the integer a number denotes
-/

------------------------------------------------------------
-- Numbers
------------------------------------------------------------

namespace GraphQL

/-
  The number `± significand * 2 ^ exponent`. Zero carries its
  sign.
-/
structure Binary64 where
  negative : Bool
  significand : Nat
  exponent : Int
  deriving DecidableEq, Repr, Inhabited

namespace Binary64

/- Exponent of the smallest positive number. -/
def minExponent : Int := -1074

/- Exponent of the largest numbers. -/
def maxExponent : Int := 971

/- The one representation each number of the format has. -/
def IsCanonical (x : Binary64) : Prop :=
  x.significand < twoTo 53 ∧
    minExponent ≤ x.exponent ∧
    x.exponent ≤ maxExponent ∧
    (twoTo 52 ≤ x.significand ∨ x.exponent = minExponent)

/- Zero of either sign. -/
def zero (negative : Bool) : Binary64 :=
  ⟨negative, 0, minExponent⟩

/- Whether a number is a zero. -/
def isZero (x : Binary64) : Bool :=
  x.significand == 0

/- Change the sign. -/
def neg (x : Binary64) : Binary64 :=
  { x with negative := !x.negative }

/-
  Equality of values: the two zeros are equal, all other
  numbers have one representation.
-/
def same (x y : Binary64) : Bool :=
  (x.isZero && y.isZero) || x == y

/- The magnitude as a quotient of naturals. -/
def magnitude (x : Binary64) : Nat × Nat :=
  (x.significand * twoTo x.exponent.toNat,
    twoTo (-x.exponent).toNat)

/- The integer a number without fractional part denotes. -/
def integer? (x : Binary64) : Option Int :=
  let ratio := x.magnitude
  if ratio.1 % ratio.2 = 0 then
    let whole : Int := (ratio.1 / ratio.2 : Nat)
    some (if x.negative then -whole else whole)
  else
    none

------------------------------------------------------------
-- Rounding
------------------------------------------------------------

/- A finite number, or the result of leaving the range. -/
inductive Extended where
  | finite (value : Binary64)
  | infinite (negative : Bool)
  deriving DecidableEq, Repr, Inhabited

/- A quotient to the nearest integer, halves to even. -/
def divNearest (num den : Nat) : Nat :=
  let quotient := num / den
  let rest := num % den
  if den < 2 * rest ∨ (2 * rest = den ∧ quotient % 2 = 1) then
    quotient + 1
  else
    quotient

/- Numerator and denominator of `num / den * 2 ^ (-e)`. -/
def scaled (num den : Nat) (e : Int) : Nat × Nat :=
  (num * twoTo (-e).toNat, den * twoTo e.toNat)

/-
  Exponent of the unit in the last place of a quotient: the
  scaled quotient lies below `2 ^ 53`, and not below `2 ^ 52`
  unless the exponent is the smallest one.
-/
def unitExponent (num den : Nat) : Int :=
  let e := (Nat.log2 num : Int) - (Nat.log2 den : Int) - 53
  let ratio := scaled num den e
  max minExponent
    (if ratio.1 < ratio.2 * twoTo 53 then e else e + 1)

namespace Extended

/- The finite number, if there is one. -/
def finite? : Extended → Option Binary64
| finite value => some value
| infinite _ => none

/- Change the sign. -/
def neg : Extended → Extended
| finite value => finite value.neg
| infinite negative => infinite (!negative)

/- Equality of values. -/
def same : Extended → Extended → Bool
| finite x, finite y => x.same y
| infinite x, infinite y => x == y
| _, _ => false

/- Round a quotient of naturals to the nearest number. -/
def ofRatio (negative : Bool) (num den : Nat) : Extended :=
  if num = 0 then
    finite (zero negative)
  else
    let e := unitExponent num den
    let ratio := scaled num den e
    let rounded := divNearest ratio.1 ratio.2
    let value : Binary64 :=
      if rounded = twoTo 53 then
        ⟨negative, twoTo 52, e + 1⟩
      else
        ⟨negative, rounded, e⟩
    if value.exponent ≤ maxExponent then
      finite value
    else
      infinite negative

/- Round an integer. -/
def ofInt (n : Int) : Extended :=
  ofRatio (n < 0) n.natAbs 1

end Extended

/- Rounded product. -/
def mul (x y : Binary64) : Extended :=
  let p := x.magnitude
  let q := y.magnitude
  Extended.ofRatio (x.negative != y.negative)
    (p.1 * q.1) (p.2 * q.2)

/- Rounded quotient by a nonzero number. -/
def div (x y : Binary64) : Extended :=
  let p := x.magnitude
  let q := y.magnitude
  Extended.ofRatio (x.negative != y.negative)
    (p.1 * q.2) (p.2 * q.1)

end Binary64

end GraphQL
