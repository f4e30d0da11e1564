import GraphQL.Name
import GraphQL.Document.BlockString
import GraphQL.Json.Reader

/-
  Tokens of documents.

  Blanks, commas and comments stand between tokens. Columns
  count characters; between tokens a tab counts eight, and
  carriage returns and byte order marks count nothing. The
  character that ends a comment starts a new line.

  Key definitions include:
    * `Token`, `Token.Kind`
    * `Token.numberValue?`: the notation of numbers
    * `Token.scan?`: the tokens of a text
-/

------------------------------------------------------------
-- Tokens
------------------------------------------------------------

namespace GraphQL

/- What a token stands for. -/
inductive Token.Kind where
  | mark (text : String)
  | name (text : String)
  | int (value : Int)
  | float (value : Binary64.Extended)
  | string (value : String)
  deriving DecidableEq, Repr, Inhabited

/- A token and the place where it starts. -/
structure Token where
  kind : Token.Kind
  position : Position
  deriving Repr, Inhabited

/- The place after some text. -/
def Position.after (pos : Position) (cs : List Char) :
    Position :=
  cs.foldl
    (fun pos c =>
      if c = '\n' then
        ⟨pos.line + 1, 1⟩
      else
        { pos with column := pos.column + 1 })
    pos

namespace Token

/-
  Drop blanks and comments, and keep track of the place. The
  flag tells whether the text starts within a comment.
-/
def skip (comment : Bool) (pos : Position) :
    List Char → Position × List Char
| [] => (pos, [])
| c :: rest =>
    if comment then
      if c = '\n' ∨ c = '\r' then
        skip false ⟨pos.line + 1, 1⟩ rest
      else
        skip true pos rest
    else if c = '\n' then
      skip false ⟨pos.line + 1, 1⟩ rest
    else if c = '\r' ∨ c.toNat = 0xFEFF then
      skip false pos rest
    else if c = '\t' then
      skip false { pos with column := pos.column + 8 } rest
    else if c = ' ' ∨ c = ',' then
      skip false { pos with column := pos.column + 1 } rest
    else if c = '#' then
      skip true pos rest
    else
      (pos, c :: rest)

------------------------------------------------------------
-- Numbers
------------------------------------------------------------

/- Characters that end the text of a number. -/
def endsNumber (c : Char) : Bool :=
  " \n\r\t,#!$:=@|&()[]\x7b\x7d".toList.contains c

/- Whether digits are the whole part of a number. -/
def isWhole (digits : List Char) : Bool :=
  match digits with
  | [] => false
  | '0' :: rest => rest.isEmpty
  | _ => true

/-
  The exponent of a float after its letter: signed digits, or
  digits of which the first lies between one and eight.
-/
def exponent? (cs : List Char) : Option Int :=
  let digits (cs : List Char) : Option Int :=
    if !cs.isEmpty && cs.all Char.isDigit then
      some (digitsValue cs)
    else
      none
  match cs with
  | '+' :: rest => digits rest
  | '-' :: rest => (digits rest).map fun e => -e
  | c :: _ => if '1' ≤ c ∧ c ≤ '8' then digits cs else none
  | [] => none

/- A float after its whole part. -/
def floatValue?
    (negative : Bool) (whole cs : List Char) :
    Option Binary64.Extended := do
  let (places, rest) ←
    match cs with
    | '.' :: rest =>
        let places := rest.takeWhile Char.isDigit
        if places.isEmpty then
          none
        else
          some (places, rest.dropWhile Char.isDigit)
    | _ => some ([], cs)
  let e ←
    match rest with
    | [] => some 0
    | c :: rest =>
        if c = 'e' ∨ c = 'E' then exponent? rest else none
  return Decimal.round
    ⟨negative, digitsValue (whole ++ places), e - places.length⟩

/- The value of the text of a number. -/
def numberValue? (text : List Char) : Option Kind :=
  let (negative, cs) :=
    match text with
    | '-' :: rest => (true, rest)
    | _ => (false, text)
  let whole := cs.takeWhile Char.isDigit
  let rest := cs.dropWhile Char.isDigit
  if !isWhole whole then
    none
  else if rest.isEmpty then
    let n : Int := digitsValue whole
    let value := if negative then -n else n
    if Json.minInteger ≤ value ∧ value ≤ Json.maxSigned then
      some (.int value)
    else
      none
  else
    (floatValue? negative whole rest).map .float

------------------------------------------------------------
-- Strings
------------------------------------------------------------

/- The character an escape of one letter stands for. -/
def escaped? (c : Char) : Option Char :=
  match c with
  | '"' => some '"'
  | '\\' => some '\\'
  | '/' => some '/'
  | 'b' => some (Char.ofNat 0x10)
  | 'f' => some (Char.ofNat 0xC)
  | 'n' => some '\n'
  | 'r' => some '\r'
  | 't' => some '\t'
  | _ => none

/- The character with a given code, written in hexadecimal. -/
def coded? (a b c d : Char) : Option Char := do
  let first ← if a = '+' then some '0' else some a
  let code ← Json.Reader.hex4? first b c d
  if 0xD800 ≤ code ∧ code ≤ 0xDFFF then
    none
  else
    return Char.ofNat code

/- The rest of a quoted string after its opening quote. -/
def quoted? : List Char → Option (List Char × List Char)
| [] => none
| '"' :: rest => some ([], rest)
| '\\' :: 'u' :: a :: b :: c :: d :: rest => do
    let value ← coded? a b c d
    let (tail, out) ← quoted? rest
    return (value :: tail, out)
| '\\' :: c :: rest => do
    let value ← escaped? c
    let (tail, out) ← quoted? rest
    return (value :: tail, out)
| c :: rest =>
    if c = '\n' then
      none
    else do
      let (tail, out) ← quoted? rest
      return (c :: tail, out)

------------------------------------------------------------
-- Scanning
------------------------------------------------------------

/- Marks of one character. -/
def marks : List Char :=
  "()[]\x7b\x7d!$:=@|&".toList

/- The token that starts with a given character. -/
def next? (c : Char) (rest : List Char) :
    Option (Kind × List Char) :=
  if marks.contains c then
    some (.mark (String.singleton c), rest)
  else if c = '.' then
    match rest with
    | '.' :: '.' :: rest => some (.mark "...", rest)
    | _ => none
  else if Name.starts c then
    let text := c :: rest.takeWhile Name.goesOn
    some (.name (String.ofList text),
      rest.dropWhile Name.goesOn)
  else if c = '-' ∨ c.isDigit then do
    let text := c :: rest.takeWhile fun c => !endsNumber c
    let kind ← numberValue? text
    return (kind, rest.dropWhile fun c => !endsNumber c)
  else if c = '"' then
    match rest with
    | '"' :: '"' :: rest => do
        let (raw, out) ← BlockString.raw? false rest
        let value := BlockString.value raw
        return (.string (String.ofList value), out)
    | _ => do
        let (value, out) ← quoted? rest
        return (.string (String.ofList value), out)
  else
    none

/- Number of brackets that may be open at once. -/
def nestingLimit : Nat := 50

/- Number of open brackets after a token. -/
def depthAfter? (depth : Nat) (kind : Kind) : Option Nat :=
  match kind with
  | .mark text =>
      if text = "(" ∨ text = "[" ∨ text = "\x7b" then
        if depth < nestingLimit then some (depth + 1) else none
      else if text = ")" ∨ text = "]" ∨ text = "\x7d" then
        some (depth - 1)
      else
        some depth
  | _ => some depth

/- The tokens of a text that starts at a given place. -/
def scanFrom? (pos : Position) (depth : Nat) (cs : List Char) :
    Option (List Token) :=
  let (start, text) := skip false pos cs
  match text with
  | [] => some []
  | c :: rest =>
      match next? c rest with
      | none => none
      | some (kind, out) =>
          match depthAfter? depth kind with
          | none => none
          | some depth =>
              if out.length < cs.length then
                let width := rest.length + 1 - out.length
                let stop := start.after ((c :: rest).take width)
                (scanFrom? stop depth out).map fun tail =>
                  ⟨kind, start⟩ :: tail
              else
                none
termination_by cs.length

/- The tokens of a text, if it consists of tokens. -/
def scan? (text : String) : Option (List Token) :=
  scanFrom? ⟨1, 1⟩ 0 text.toList

end Token

end GraphQL
