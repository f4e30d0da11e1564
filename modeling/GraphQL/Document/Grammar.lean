import GraphQL.Document.Token

/-
  The grammar that all documents share: names, values, type
  expressions and annotations.

  A reader takes tokens from the front of a list. One token
  tells which way a reader goes on, and readers that repeat
  take at least one token a time. Values and types nest only
  within brackets, whose number is limited.

  Key definitions include:
    * `Grammar`, `Grammar.repeatWhile`
    * `Grammar.value`, `Grammar.typeExpr`
    * `Grammar.annotations`
-/

------------------------------------------------------------
-- Readers
------------------------------------------------------------

namespace GraphQL

/- A reader of tokens that may refuse. -/
abbrev Grammar := StateT (List Token) Option

namespace Grammar

variable {α : Type}

/- The next token is left where it is. -/
def peek : Grammar (Option Token) := do
  return (← get).head?

/- The kind of the next token. -/
def peekKind : Grammar (Option Token.Kind) := do
  return (← peek).map Token.kind

/- The place of the next token. -/
def position : Grammar Position := do
  match ← peek with
  | some token => return token.position
  | none => failure

/- Take the next token. -/
def take : Grammar Token := do
  match ← get with
  | token :: rest =>
      set rest
      return token
  | [] => failure

/- Whether the next token is a given mark. -/
def isMark (text : String) (token : Token) : Bool :=
  token.kind = .mark text

/- Whether a token is a name. -/
def isName (token : Token) : Bool :=
  match token.kind with
  | .name _ => true
  | _ => false

/- Whether a token is a given name. -/
def isKeyword (text : String) (token : Token) : Bool :=
  token.kind = .name text

/- Whether a token is a string. -/
def isString (token : Token) : Bool :=
  match token.kind with
  | .string _ => true
  | _ => false

/- Whether the next token satisfies a test. -/
def sees (test : Token → Bool) : Grammar Bool := do
  match ← peek with
  | some token => return test token
  | none => return false

/- Take a given mark. -/
def mark (text : String) : Grammar Unit := do
  let token ← take
  if isMark text token then return () else failure

/- Take a given mark if it is next. -/
def mark? (text : String) : Grammar Bool := do
  if ← sees (isMark text) then
    let _ ← take
    return true
  else
    return false

/- Take a name. -/
def name : Grammar String := do
  match (← take).kind with
  | .name text => return text
  | _ => failure

/- Take a given name. -/
def keyword (text : String) : Grammar Unit := do
  let token ← take
  if isKeyword text token then return () else failure

/- Read as often as the next token allows, within a bound. -/
def repeatBounded
    (starts : Token → Bool)
    (item : Grammar α) : Nat → Grammar (List α)
| 0 => return []
| bound + 1 => do
    if ← sees starts then
      let first ← item
      let rest ← repeatBounded starts item bound
      return first :: rest
    else
      return []

/- Read as often as the next token allows. -/
def repeatWhile
    (starts : Token → Bool)
    (item : Grammar α) : Grammar (List α) := do
  repeatBounded starts item (← get).length

/- Read at least once, and as often as the next token allows. -/
def repeatSome
    (starts : Token → Bool)
    (item : Grammar α) : Grammar (List α) := do
  let items ← repeatWhile starts item
  if items.isEmpty then failure else return items

/- Items between brackets, if the opening bracket is next. -/
def bracketed?
    (opening closing : String)
    (items : Grammar (List α)) : Grammar (List α) := do
  if ← mark? opening then
    let result ← items
    mark closing
    return result
  else
    return []

/- Items with a mark between them. -/
def separated (text : String) (item : Grammar α) :
    Grammar (List α) := do
  let first ← item
  let rest ← repeatWhile (isMark text) (do mark text; item)
  return first :: rest

------------------------------------------------------------
-- Values
------------------------------------------------------------

/- The literal a name stands for. -/
def namedLiteral (text : String) : Literal :=
  if text = "true" then .boolean true
  else if text = "false" then .boolean false
  else if text = "null" then .null
  else .enum text

/- Whether a token may start a value. -/
def startsValue (token : Token) : Bool :=
  match token.kind with
  | .mark text =>
      text = "[" || text = "\x7b" || text = "$"
  | _ => true

/-
  Entries of an object literal: sorted by name, and of a
  repeated name the last value.
-/
def sortedEntries (pairs : List (String × Literal)) :
    List (String × Literal) :=
  (Entries.ofList pairs).mergeSort fun a b => a.1 ≤ b.1

/-
  A value that nests below the given depth. Variables may be
  ruled out.
-/
def valueWithin (vars : Bool) : Nat → Grammar Literal
| 0 => failure
| depth + 1 => do
    let token ← take
    match token.kind with
    | .int value => return .int value
    | .float value => return .float value
    | .string value => return .string value
    | .name text => return namedLiteral text
    | .mark "$" =>
        if vars then
          return .variable (← name)
        else
          failure
    | .mark "[" =>
        let items ←
          repeatWhile startsValue (valueWithin vars depth)
        mark "]"
        return .list items
    | .mark "\x7b" =>
        let pairs ← repeatWhile isName do
          let key ← name
          mark ":"
          return (key, ← valueWithin vars depth)
        mark "\x7d"
        return .object (sortedEntries pairs)
    | _ => failure

/- A value. -/
def value (vars : Bool) : Grammar Literal :=
  valueWithin vars (Token.nestingLimit + 1)

/- A default value, if there is one; it holds no variables. -/
def default? : Grammar (Option Literal) := do
  if ← mark? "=" then
    return some (← value false)
  else
    return none

/- Arguments in parentheses, if there are any. -/
def arguments : Grammar (List (String × Literal)) :=
  bracketed? "(" ")" <| repeatSome isName do
    let key ← name
    mark ":"
    return (key, ← value true)

------------------------------------------------------------
-- Types And Annotations
------------------------------------------------------------

/- A type expression that nests below the given depth. -/
def typeWithin : Nat → Grammar TypeExpr
| 0 => failure
| depth + 1 => do
    let inner ←
      if ← mark? "[" then do
        let item ← typeWithin depth
        mark "]"
        pure (TypeExpr.list item)
      else do
        pure (TypeExpr.named (← name))
    if ← mark? "!" then
      return .nonNull inner
    else
      return inner

/- A type expression. -/
def typeExpr : Grammar TypeExpr :=
  typeWithin (Token.nestingLimit + 1)

/- Annotations, as many as there are. -/
def annotations : Grammar (List Annotation) :=
  repeatWhile (isMark "@") do
    let place ← position
    mark "@"
    let text ← name
    return ⟨place, text, ← arguments⟩

------------------------------------------------------------
-- Documents
------------------------------------------------------------

/- At least one definition, up to the end. -/
def document (definition : Grammar α) : Grammar (List α) := do
  let definitions ← repeatSome (fun _ => true) definition
  if (← get).isEmpty then return definitions else failure

/- Read a whole text. -/
def read? (grammar : Grammar α) (text : String) : Option α := do
  let tokens ← Token.scan? text
  let (result, _) ← grammar.run tokens
  return result

end Grammar

end GraphQL
