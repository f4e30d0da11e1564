import GraphQL.Json.Basic

/-
  Reading JSON text.

  A repeated member keeps its first place and its last value.
  A number without point and exponent that fits in 64 bits is
  an integer. Any other number takes the leading digits that
  fit in 64 bits and scales them by a power of ten, rounding
  after each step.

  Key definitions include:
    * `Json.read?`
-/

------------------------------------------------------------
-- Characters
------------------------------------------------------------

namespace GraphQL

namespace Json

namespace Reader

/- Blanks between tokens. -/
def isBlank (c : Char) : Bool :=
  c == ' ' || c == '\n' || c == '\t' || c == '\r'

/- Drop leading blanks. -/
def skip (cs : List Char) : List Char :=
  cs.dropWhile isBlank

/- The value of a hexadecimal digit. -/
def hexDigit? (c : Char) : Option Nat :=
  if '0' ≤ c ∧ c ≤ '9' then
    some (c.toNat - '0'.toNat)
  else if 'a' ≤ c ∧ c ≤ 'f' then
    some (c.toNat - 'a'.toNat + 10)
  else if 'A' ≤ c ∧ c ≤ 'F' then
    some (c.toNat - 'A'.toNat + 10)
  else
    none

/- The value of four hexadecimal digits. -/
def hex4? (a b c d : Char) : Option Nat := do
  let a ← hexDigit? a
  let b ← hexDigit? b
  let c ← hexDigit? c
  let d ← hexDigit? d
  return ((a * 16 + b) * 16 + c) * 16 + d

/- The character an escape of one letter stands for. -/
def escaped? (c : Char) : Option Char :=
  match c with
  | '"' => some '"'
  | '\\' => some '\\'
  | '/' => some '/'
  | 'b' => some (Char.ofNat 0x8)
  | 'f' => some (Char.ofNat 0xC)
  | 'n' => some '\n'
  | 'r' => some '\r'
  | 't' => some '\t'
  | _ => none

/-
  The rest of a string after its opening quote. Characters
  outside the basic plane are written as surrogate pairs.
-/
def string? : List Char → Option (List Char × List Char)
| [] => none
| '"' :: rest => some ([], rest)
| '\\' :: 'u' :: a :: b :: c :: d :: rest => do
    let unit ← hex4? a b c d
    if unit < 0xD800 ∨ 0xDFFF < unit then
      let (tail, out) ← string? rest
      return (Char.ofNat unit :: tail, out)
    else if 0xDBFF < unit then
      none
    else
      match rest with
      | '\\' :: 'u' :: e :: f :: g :: h :: rest => do
          let low ← hex4? e f g h
          if low < 0xDC00 ∨ 0xDFFF < low then
            none
          else
            let (tail, out) ← string? rest
            let point :=
              0x10000 + (unit - 0xD800) * 0x400 + (low - 0xDC00)
            return (Char.ofNat point :: tail, out)
      | _ => none
| '\\' :: c :: rest => do
    let value ← escaped? c
    let (tail, out) ← string? rest
    return (value :: tail, out)
| c :: rest =>
    if c.toNat < 0x20 then
      none
    else do
      let (tail, out) ← string? rest
      return (c :: tail, out)

------------------------------------------------------------
-- Numbers
------------------------------------------------------------

/- The decimal digits at the front of a text, and the rest. -/
def digits (cs : List Char) : List Char × List Char :=
  (cs.takeWhile Char.isDigit, cs.dropWhile Char.isDigit)

/-
  Digits before the point: the value of those that fit in 64
  bits, and the number of those that do not.
-/
def wholeDigits (acc skipped : Nat) : List Char → Nat × Nat
| [] => (acc, skipped)
| c :: cs =>
    let next := acc * 10 + (c.toNat - '0'.toNat)
    if skipped = 0 ∧ next < twoTo 64 then
      wholeDigits next 0 cs
    else
      wholeDigits acc (skipped + 1) cs

/-
  Digits after the point: they extend the value as long as it
  fits in 64 bits, and the number used is counted.
-/
def pointDigits (acc used : Nat) : List Char → Nat × Nat
| [] => (acc, used)
| c :: cs =>
    let next := acc * 10 + (c.toNat - '0'.toNat)
    if next < twoTo 64 then
      pointDigits next (used + 1) cs
    else
      (acc, used)

/- The largest power of ten that is applied in one step. -/
def maxStep : Nat := 308

/- A power of ten, rounded. -/
def powerOfTen (n : Nat) : Option Binary64 :=
  (Binary64.Extended.ofInt (tenTo n)).finite?

/-
  Scale by a power of ten, rounding after each step; four steps
  bring any significand below the smallest number.
-/
def scale (fuel : Nat) (x : Binary64) (e : Int) :
    Option Binary64 :=
  match fuel with
  | 0 => some x
  | fuel + 1 =>
      if e.natAbs ≤ maxStep then do
        let power ← powerOfTen e.natAbs
        if 0 ≤ e then
          (x.mul power).finite?
        else
          (x.div power).finite?
      else if x.isZero then
        some x
      else if 0 ≤ e then
        none
      else do
        let power ← powerOfTen maxStep
        let smaller ← (x.div power).finite?
        scale fuel smaller (e + maxStep)

/- A number given by sign, significand and decimal exponent. -/
def fraction? (negative : Bool) (significand : Nat) (e : Int) :
    Option Json := do
  let x ← (Binary64.Extended.ofInt significand).finite?
  let y ← scale 5 x e
  return ofFraction (if negative then y.neg else y)

/-
  The exponent part of a number, if there is one. Exponents
  beyond 32 bits leave the range.
-/
def exponent? (cs : List Char) :
    Option (Option Int × List Char) :=
  let read (sign : Int) (cs : List Char) :
      Option (Option Int × List Char) :=
    let (run, rest) := digits cs
    if run.isEmpty then
      none
    else
      some (some (sign * digitsValue run), rest)
  match cs with
  | 'e' :: '+' :: rest => read 1 rest
  | 'E' :: '+' :: rest => read 1 rest
  | 'e' :: '-' :: rest => read (-1) rest
  | 'E' :: '-' :: rest => read (-1) rest
  | 'e' :: rest => read 1 rest
  | 'E' :: rest => read 1 rest
  | _ => some (none, cs)

/- The fractional digits of a number, if there are any. -/
def point? (cs : List Char) :
    Option (Option (List Char) × List Char) :=
  match cs with
  | '.' :: rest =>
      let (run, rest) := digits rest
      if run.isEmpty then none else some (some run, rest)
  | _ => some (none, cs)

/- A number after its sign. -/
def number? (negative : Bool) (cs : List Char) :
    Option (Json × List Char) := do
  let (whole, rest) := digits cs
  if whole.isEmpty ∨ (whole.head? = some '0' ∧ 1 < whole.length)
  then
    none
  else
    let (point, rest) ← point? rest
    let (exponent, rest) ← exponent? rest
    let n := digitsValue whole
    let (significand, skipped) := wholeDigits 0 0 whole
    if point.isNone ∧ exponent.isNone then
      if negative ∧ 0 < n ∧ n ≤ twoTo 63 then
        return (ofInt (-(n : Int)), rest)
      else if ¬ negative ∧ n < twoTo 64 then
        return (ofInt n, rest)
      else
        let value ← fraction? negative significand skipped
        return (value, rest)
    else
      let (significand, used) :=
        pointDigits significand 0 (point.getD [])
      let e : Int := (skipped : Int) - used + exponent.getD 0
      if significand = 0 then
        return (ofFraction (.zero negative), rest)
      else
        let value ← fraction? negative significand e
        return (value, rest)

------------------------------------------------------------
-- Values
------------------------------------------------------------

/- Elements separated by commas, up to a closing character. -/
def elements
    {α : Type}
    (close : Char)
    (element : List Char → Option (α × List Char)) :
    Nat → List Char → Option (List α × List Char)
| 0, _ => none
| fuel + 1, cs => do
    let (x, rest) ← element cs
    match skip rest with
    | [] => none
    | c :: more =>
        if c = close then
          return ([x], more)
        else if c = ',' then
          let (xs, out) ← elements close element fuel more
          return (x :: xs, out)
        else
          none

/- A possibly empty sequence up to a closing character. -/
def sequence
    {α : Type}
    (close : Char)
    (element : List Char → Option (α × List Char))
    (cs : List Char) : Option (List α × List Char) :=
  match skip cs with
  | [] => none
  | c :: rest =>
      if c = close then
        some ([], rest)
      else
        elements close element cs.length cs

/- A member of an object, given the reader of its value. -/
def member
    (value : List Char → Option (Json × List Char))
    (cs : List Char) :
    Option ((String × Json) × List Char) := do
  match skip cs with
  | '"' :: rest =>
      let (name, rest) ← string? rest
      match skip rest with
      | ':' :: rest =>
          let (v, out) ← value rest
          return ((String.ofList name, v), out)
      | _ => none
  | _ => none

/- A value in which containers nest below the given depth. -/
def value : Nat → List Char → Option (Json × List Char)
| 0, _ => none
| depth + 1, cs =>
    match skip cs with
    | 'n' :: 'u' :: 'l' :: 'l' :: rest => some (null, rest)
    | 't' :: 'r' :: 'u' :: 'e' :: rest => some (bool true, rest)
    | 'f' :: 'a' :: 'l' :: 's' :: 'e' :: rest =>
        some (bool false, rest)
    | '"' :: rest => do
        let (chars, out) ← string? rest
        return (string (String.ofList chars), out)
    | '[' :: rest => do
        let (items, out) ← sequence ']' (value depth) rest
        return (array items, out)
    | '\x7b' :: rest => do
        let (members, out) ←
          sequence '\x7d' (member (value depth)) rest
        return (object (Entries.ofList members), out)
    | '-' :: rest => number? true rest
    | rest => number? false rest

/- Depth to which containers may nest. -/
def nestingLimit : Nat := 128

end Reader

/- The value a text denotes, if it is a JSON document. -/
def read? (text : String) : Option Json := do
  let (v, rest) ← Reader.value Reader.nestingLimit text.toList
  if (Reader.skip rest).isEmpty then some v else none

end Json

end GraphQL
