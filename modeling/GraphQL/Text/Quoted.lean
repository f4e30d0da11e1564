import GraphQL.Text.CharacterClass

/-
  Quoted text.

  Two ways to write a string between quotes: the one of JSON
  documents, and the one of debug listings, which also escapes
  what cannot be printed.

  Key definitions include:
    * `Text.jsonQuoted`
    * `Text.debugQuoted`
    * `Text.debugList`
-/

------------------------------------------------------------
-- Hexadecimal Digits
------------------------------------------------------------

namespace GraphQL

namespace Text

/- Lower-case hexadecimal digits, at least the given number. -/
def hexDigits (width : Nat) (n : Nat) : List Char :=
  let digits := Nat.toDigits 16 n
  List.replicate (width - digits.length) '0' ++ digits

------------------------------------------------------------
-- Quoting
------------------------------------------------------------

/- One character of a JSON string. -/
def jsonEscape (c : Char) : List Char :=
  if c = '"' then ['\\', '"']
  else if c = '\\' then ['\\', '\\']
  else if c = '\n' then ['\\', 'n']
  else if c = '\r' then ['\\', 'r']
  else if c = '\t' then ['\\', 't']
  else if c.toNat = 0x8 then ['\\', 'b']
  else if c.toNat = 0xC then ['\\', 'f']
  else if c.toNat < 0x20 then
    '\\' :: 'u' :: hexDigits 4 c.toNat
  else [c]

/- A JSON string: quotes, backslashes and controls escaped. -/
def jsonQuoted (text : String) : String :=
  String.ofList
    ('"' :: (text.toList.flatMap jsonEscape ++ ['"']))

/- One character of a debug listing. -/
def debugEscape (c : Char) : List Char :=
  if c = '"' then ['\\', '"']
  else if c = '\\' then ['\\', '\\']
  else if c = '\n' then ['\\', 'n']
  else if c = '\r' then ['\\', 'r']
  else if c = '\t' then ['\\', 't']
  else if c.toNat = 0 then ['\\', '0']
  else if isExtender c || isUnprintable c then
    ['\\', 'u', '\x7b'] ++ hexDigits 1 c.toNat ++ ['\x7d']
  else [c]

/- A string in a debug listing. -/
def debugQuoted (text : String) : String :=
  String.ofList
    ('"' :: (text.toList.flatMap debugEscape ++ ['"']))

/- A list of strings in a debug listing. -/
def debugList (texts : List String) : String :=
  "[" ++ ", ".intercalate (texts.map debugQuoted) ++ "]"

end Text

end GraphQL
