import GraphQL.Text.Lowercase

/-
  Suggestions for misspelt names.

  The distance of two texts counts insertions, deletions,
  substitutions and transpositions of adjacent characters in
  lower case; texts that differ only in case are one apart. It
  is read off a table with a row for each character of one text
  and a column for each character of the other, of which three
  rows are kept at a time.

  Key definitions include:
    * `Suggestion.Fault`: what must not happen on the way
    * `Suggestion.Rows`: the rows that are kept
    * `Suggestion.nextCell`, `Suggestion.fillRow`
    * `Suggestion.measure`: the distance within a threshold
    * `Suggestion.closest`, `Suggestion.didYouMean`
-/

------------------------------------------------------------
-- Rows
------------------------------------------------------------

namespace GraphQL

namespace Suggestion

/-
  What stops a computation on the table: a place that is not
  there, or a difference of naturals below zero.
-/
inductive Fault where
  | outside
  | negative
  deriving DecidableEq, Repr, Inhabited

/- The item at a place. -/
def item {α : Type} (items : Array α) (place : Nat) :
    Except Fault α :=
  match items[place]? with
  | some found => .ok found
  | none => .error .outside

/- A difference of naturals. -/
def minus (a b : Nat) : Except Fault Nat :=
  if b ≤ a then .ok (a - b) else .error .negative

/-
  Three rows of cells that take turns: a row of the table is
  kept in the place of the row three above it.
-/
abbrev Rows := Array (Array Nat)

namespace Rows

/- The first row of a table, and two to be filled. -/
def start (width : Nat) : Rows :=
  #[Array.range (width + 1),
    Array.replicate (width + 1) 0,
    Array.replicate (width + 1) 0]

/- The cell in row `i` and column `j`. -/
def read (rows : Rows) (i j : Nat) : Except Fault Nat := do
  let row ← item rows (i % 3)
  item row j

/- Put a value into the cell in row `i` and column `j`. -/
def write (rows : Rows) (i j value : Nat) :
    Except Fault Rows := do
  let row ← item rows (i % 3)
  if j < row.size then
    return rows.modify (i % 3) fun row =>
      row.setIfInBounds j value
  else
    throw .outside

end Rows

------------------------------------------------------------
-- Distance
------------------------------------------------------------

/-
  The cell in row `i` and column `j`, from the cells above it
  and to the left. A transposition of the last two characters
  goes back two rows and two columns.
-/
def nextCell
    (a b : Array Char) (rows : Rows) (i j : Nat) :
    Except Fault Nat := do
  let c ← item a (← minus i 1)
  let d ← item b (← minus j 1)
  let cost := if c = d then 0 else 1
  let up ← rows.read (← minus i 1) j
  let left ← rows.read i (← minus j 1)
  let diagonal ← rows.read (← minus i 1) (← minus j 1)
  let plain := min (min (up + 1) (left + 1)) (diagonal + cost)
  if 1 < i ∧ 1 < j then
    let e ← item b (← minus j 2)
    let f ← item a (← minus i 2)
    if c = e ∧ f = d then
      let swapped ← rows.read (← minus i 2) (← minus j 2)
      return min plain (swapped + 1)
    else
      return plain
  else
    return plain

/- Fill one cell of a row, keeping the smallest cell so far. -/
def fillCell
    (a b : Array Char) (i : Nat)
    (filled : Rows × Nat) (j : Nat) :
    Except Fault (Rows × Nat) := do
  let current ← nextCell a b filled.1 i j
  let rows ← filled.1.write i j current
  return (rows, min filled.2 current)

/- Fill a row, and find its smallest cell. -/
def fillRow (a b : Array Char) (rows : Rows) (i : Nat) :
    Except Fault (Rows × Nat) := do
  let rows ← rows.write i 0 i
  (List.range' 1 b.size).foldlM (fillCell a b i) (rows, i)

/-
  Fill rows one after another, unless one of them lies entirely
  beyond the threshold.
-/
def fillRows (threshold : Nat) (a b : Array Char) :
    Rows → List Nat → Except Fault (Option Rows)
| rows, [] => return some rows
| rows, i :: rest => do
    let (rows, smallest) ← fillRow a b rows i
    if threshold < smallest then
      return none
    else
      fillRows threshold a b rows rest

/-
  The distance of two texts of which the first is not shorter,
  if it is within the threshold.
-/
def alignment (threshold : Nat) (long short : Array Char) :
    Except Fault (Option Nat) := do
  let surplus ← minus long.size short.size
  if threshold < surplus then
    return none
  else
    let filled ←
      fillRows threshold long short (Rows.start short.size)
        (List.range' 1 long.size)
    match filled with
    | none => return none
    | some rows =>
        let distance ← rows.read long.size short.size
        if distance ≤ threshold then
          return some distance
        else
          return none

/- The distance of an option, if it is within the threshold. -/
def measure (threshold : Nat) (input option : String) :
    Except Fault (Option Nat) :=
  if input = option then
    .ok (some 0)
  else
    let a := Text.lowercase input
    let b := Text.lowercase option
    if a = b then
      .ok (some 1)
    else if a.length < b.length then
      alignment threshold b.toArray a.toArray
    else
      alignment threshold a.toArray b.toArray

/- The distance that is measured within the threshold. -/
def distance? (threshold : Nat) (input option : String) :
    Option Nat :=
  (measure threshold input option).toOption.join

------------------------------------------------------------
-- Choice
------------------------------------------------------------

/- The distance up to which an option is suggested. -/
def threshold (input : String) : Nat :=
  input.length * 2 / 5 + 1

/- Order of candidates: by distance, then by text. -/
def closer (a b : Nat × String) : Bool :=
  a.1 < b.1 || (a.1 == b.1 && a.2 ≤ b.2)

/- Drop candidates that follow one with the same text. -/
def dropRepeats : List (Nat × String) → List (Nat × String)
| [] => []
| [a] => [a]
| a :: b :: rest =>
    if a.2 = b.2 then
      dropRepeats (a :: rest)
    else
      a :: dropRepeats (b :: rest)
termination_by candidates => candidates.length

/- The options close to an input, closest first. -/
def closest (input : String) (options : List String) :
    List String :=
  let candidates := options.filterMap fun option =>
    (distance? (threshold input) input option).map fun d =>
      (d, option)
  (dropRepeats (candidates.mergeSort closer)).map Prod.snd

------------------------------------------------------------
-- Wording
------------------------------------------------------------

/- The largest number of options that is written. -/
def maxWritten : Nat := 5

/- Quoted items, the last of them after "or". -/
def orList (items : List String) : String :=
  let quoted := (items.take maxWritten).map fun item =>
    "\"" ++ item ++ "\""
  match quoted with
  | [] => ""
  | [only] => only
  | [first, second] => first ++ " or " ++ second
  | _ =>
      ", ".intercalate quoted.dropLast ++ ", or " ++
        quoted.getLast?.getD ""

/- The question that ends a message, if there is an option. -/
def didYouMean (subject : Option String)
    (options : List String) : String :=
  if options.isEmpty then
    ""
  else
    let noun :=
      match subject with
      | some text => text ++ " "
      | none => ""
    " Did you mean " ++ noun ++ orList options ++ "?"

end Suggestion

end GraphQL
