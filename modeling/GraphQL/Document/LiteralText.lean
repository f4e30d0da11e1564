import GraphQL.Document.Literal
import GraphQL.Text.CharacterClass

/-
  The text of literals.

  A string that spans lines is written as a block when all its
  characters may stand there; any other string is quoted.

  Key definitions include:
    * `Literal.text`
-/

------------------------------------------------------------
-- Lines
------------------------------------------------------------

namespace GraphQL

namespace Text

/- Drop a carriage return at the end of a line. -/
def dropReturn (line : List Char) : List Char :=
  if line.getLast? = some '\r' then line.dropLast else line

/-
  The lines of a text, given the part of the current line that
  was already read, in reverse. A line break ends a line, alone
  or after a carriage return; no empty line follows the last.
-/
def linesFrom : List Char → List Char → List (List Char)
| [], [] => []
| current, [] => [current.reverse]
| current, c :: rest =>
    if c = '\n' then
      dropReturn current.reverse :: linesFrom [] rest
    else
      linesFrom (c :: current) rest

/- The lines of a text. -/
def lines (cs : List Char) : List (List Char) :=
  linesFrom [] cs

end Text

------------------------------------------------------------
-- Strings
------------------------------------------------------------

namespace Literal

/- Characters that are written as they are. -/
def isPlain (c : Char) : Bool :=
  0x20 ≤ c.toNat && c.toNat ≤ 0xFFFF

/- Characters that may stand in a block. -/
def isBlockChar (c : Char) : Bool :=
  c == '\n' || c == '\r' || c == '\t' || isPlain c

/- At least four decimal digits. -/
def fourDigits (n : Nat) : List Char :=
  let digits := digitsText n
  List.replicate (4 - digits.length) '0' ++ digits

/- One character of a quoted string. -/
def escape (c : Char) : List Char :=
  if c = '\r' then ['\\', 'r']
  else if c = '\n' then ['\\', 'n']
  else if c = '\t' then ['\\', 't']
  else if c = '"' then ['\\', '"']
  else if c = '\\' then ['\\', '\\']
  else if isPlain c then [c]
  else '\\' :: 'u' :: fourDigits c.toNat

/- Write every run of three quotes with a backslash. -/
def escapeQuotes : List Char → List Char
| '"' :: '"' :: '"' :: rest =>
    ['\\', '"', '"', '"'] ++ escapeQuotes rest
| c :: rest => c :: escapeQuotes rest
| [] => []

/- One line of a block: indented unless it is blank. -/
def blockLine (line : List Char) : List Char :=
  if line.all Text.isBlank then
    ['\n']
  else
    [' ', ' '] ++ escapeQuotes line ++ ['\n']

/- The text of a string literal. -/
def stringText (value : String) : String :=
  let cs := value.toList
  if cs.contains '\n' && cs.all isBlockChar then
    String.ofList
      (['"', '"', '"', '\n'] ++
        (Text.lines cs).flatMap blockLine ++ ['"', '"', '"'])
  else
    String.ofList ('"' :: (cs.flatMap escape ++ ['"']))

/- Floats are positional; whole ones have no point. -/
def floatText : Binary64.Extended → String
| .finite value => (value.shortest .up).positional []
| .infinite true => "-inf"
| .infinite false => "inf"

------------------------------------------------------------
-- Literals
------------------------------------------------------------

mutual

/- The text of a literal. -/
def text : Literal → String
| .variable name => "$" ++ name
| int value => toString value
| float value => floatText value
| string value => stringText value
| boolean true => "true"
| boolean false => "false"
| null => "null"
| enum name => name
| list items => "[" ++ ", ".intercalate (itemTexts items) ++ "]"
| object entries =>
    "\x7b" ++ ", ".intercalate (entryTexts entries) ++ "\x7d"

/- The texts of the items of a list. -/
def itemTexts : List Literal → List String
| [] => []
| item :: rest => text item :: itemTexts rest

/- The texts of the entries of an object. -/
def entryTexts : List (String × Literal) → List String
| [] => []
| (name, value) :: rest =>
    (name ++ ": " ++ text value) :: entryTexts rest

end

end Literal

end GraphQL
