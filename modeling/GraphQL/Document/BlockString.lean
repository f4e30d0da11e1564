import GraphQL.Document.LiteralText

/-
  Block strings: text between three quotes.

  The text is taken line by line. The least indentation of the
  lines after the first is removed from them, and blank lines
  at both ends are dropped. Any white space indents, and widths
  count the bytes of the encoded text.

  Key definitions include:
    * `BlockString.raw?`: the raw text up to the closing quotes
    * `BlockString.value`: what the raw text stands for
-/

------------------------------------------------------------
-- Bytes
------------------------------------------------------------

namespace GraphQL

namespace Text

/- The number of bytes that encode a text. -/
def byteCount : List Char → Nat
| [] => 0
| c :: cs => c.utf8Size + byteCount cs

/- The count is the size of the encoded text. -/
theorem byteCount_eq_utf8ByteSize (cs : List Char) :
    byteCount cs = (String.ofList cs).utf8ByteSize := by
  induction cs with
  | nil => rfl
  | cons c cs ih =>
      have hSplit :
          String.ofList (c :: cs) =
            String.singleton c ++ String.ofList cs := by
        rw [String.singleton_eq_ofList, ← String.ofList_append]
        rfl
      rw [hSplit, String.utf8ByteSize_append,
        String.utf8ByteSize_singleton, byteCount, ih]

/- Drop the characters that start within the first bytes. -/
def dropBytes : List Char → Nat → List Char
| cs, 0 => cs
| [], _ => []
| c :: cs, n + 1 => dropBytes cs (n + 1 - c.utf8Size)

/- Dropping the bytes of an initial part leaves the rest. -/
theorem dropBytes_byteCount (cs rest : List Char) :
    dropBytes (cs ++ rest) (byteCount cs) = rest := by
  induction cs with
  | nil => cases rest <;> rfl
  | cons c cs ih =>
      have hSize : 0 < c.utf8Size := Char.utf8Size_pos c
      have hCount :
          byteCount (c :: cs) =
            (byteCount cs + c.utf8Size - 1) + 1 := by
        rw [byteCount]
        omega
      have hRest :
          byteCount cs + c.utf8Size - 1 + 1 - c.utf8Size =
            byteCount cs := by
        omega
      rw [hCount, List.cons_append, dropBytes, hRest, ih]

end Text

------------------------------------------------------------
-- Raw Text
------------------------------------------------------------

namespace BlockString

/-
  The raw text of a block string after its opening quotes.
  Three quotes end it unless a backslash stands before them.
-/
def raw? (escape : Bool) :
    List Char → Option (List Char × List Char)
| [] => none
| '"' :: '"' :: '"' :: rest =>
    if escape then do
      let (tail, out) ← raw? false rest
      return ('"' :: '"' :: '"' :: tail, out)
    else
      some ([], rest)
| c :: rest => do
    let (tail, out) ← raw? (c == '\\') rest
    return (c :: tail, out)

/- Write escaped quotes as quotes. -/
def unescapeQuotes : List Char → List Char
| '\\' :: '"' :: '"' :: '"' :: rest =>
    '"' :: '"' :: '"' :: unescapeQuotes rest
| c :: rest => c :: unescapeQuotes rest
| [] => []

------------------------------------------------------------
-- Indentation
------------------------------------------------------------

/- Lines of white space only. -/
def isBlankLine (line : List Char) : Bool :=
  line.all Text.isBlank

/- The width of the white space at the start of a line. -/
def indent (line : List Char) : Nat :=
  Text.byteCount (line.takeWhile Text.isBlank)

/- The least indentation of the lines that are not blank. -/
def commonIndent? (lines : List (List Char)) : Option Nat :=
  let filled := lines.filter fun line => !isBlankLine line
  (filled.map indent).min?

/- Take indentation away; shorter lines are left alone. -/
def unindent (width : Nat) (line : List Char) : List Char :=
  if Text.byteCount line < width then
    line
  else
    Text.dropBytes line width

/- Drop blank lines at both ends. -/
def trimLines (lines : List (List Char)) :
    List (List Char) :=
  ((lines.dropWhile isBlankLine).reverse.dropWhile
    isBlankLine).reverse

/- What the raw text of a block string stands for. -/
def value (raw : List Char) : List Char :=
  let unindented :=
    match Text.lines raw with
    | [] => []
    | first :: rest =>
        let width := (commonIndent? rest).getD 0
        first :: rest.map (unindent width)
  List.intercalate ['\n']
    ((trimLines unindented).map unescapeQuotes)

end BlockString

end GraphQL
