import GraphQL.Document.Executable
import GraphQL.Document.Grammar

/-
  The grammar of executable documents.

  Key definitions include:
    * `ExecutableDocument.read?`
    * `Literal.read?`
-/

------------------------------------------------------------
-- Selections
------------------------------------------------------------

namespace GraphQL

namespace Grammar

/- Whether a token may start a selection. -/
def startsSelection (token : Token) : Bool :=
  isName token || isMark "..." token

/- A field, given the reader of nested selection sets. -/
def selectedField (nested : Grammar (List Selection)) :
    Grammar Selection := do
  let place ← position
  let first ← name
  let label? ← mark? ":"
  let target ← if label? then name else pure first
  let head : FieldHead :=
    { position := place
      label := if label? then some first else none
      name := target
      arguments := ← arguments
      annotations := ← annotations }
  if ← sees (isMark "\x7b") then
    return .field head (← nested)
  else
    return .field head []

/-
  A spread or an inline fragment. The name after the dots is a
  fragment unless it introduces a type condition.
-/
def spreadOrInline (nested : Grammar (List Selection)) :
    Grammar Selection := do
  mark "..."
  let place ← position
  if ← sees (isKeyword "on") then
    keyword "on"
    let condition ← name
    let applied ← annotations
    return .inline ⟨place, some condition, applied⟩ (← nested)
  else if ← sees isName then
    let target ← name
    return .spread ⟨place, target, ← annotations⟩
  else
    let applied ← annotations
    return .inline ⟨place, none, applied⟩ (← nested)

/- A selection set that nests below the given depth. -/
def selectionsWithin : Nat → Grammar (List Selection)
| 0 => failure
| depth + 1 => do
    mark "\x7b"
    let selections ← repeatSome startsSelection do
      if ← sees isName then
        selectedField (selectionsWithin depth)
      else
        spreadOrInline (selectionsWithin depth)
    mark "\x7d"
    return selections

/- A selection set. -/
def selections : Grammar (List Selection) :=
  selectionsWithin (Token.nestingLimit + 1)

------------------------------------------------------------
-- Definitions
------------------------------------------------------------

/- A variable of an operation. -/
def variableDefinition : Grammar VariableDefinition := do
  let place ← position
  mark "$"
  let text ← name
  mark ":"
  let type ← typeExpr
  return ⟨place, text, type, ← default?⟩

/- The kind of operation a keyword introduces. -/
def operationKind? (text : String) : Option OperationKind :=
  if text = "query" then some .query
  else if text = "mutation" then some .mutation
  else if text = "subscription" then some .subscription
  else none

/- An operation after its keyword. -/
def operation (place : Position) (kind : OperationKind) :
    Grammar Operation := do
  let title ← if ← sees isName then some <$> name else pure none
  let definitions ←
    bracketed? "(" ")"
      (repeatSome (isMark "$") variableDefinition)
  let applied ← annotations
  return ⟨kind, place, title, definitions, applied, ← selections⟩

/- A fragment definition after its keyword. -/
def fragment (place : Position) : Grammar Fragment := do
  let title ← name
  keyword "on"
  let condition ← name
  let applied ← annotations
  return ⟨place, title, condition, applied, ← selections⟩

/- A definition of an executable document. -/
def executableDefinition : Grammar ExecutableDefinition := do
  let place ← position
  if ← sees (isMark "\x7b") then
    return .operation
      ⟨.query, place, none, [], [], ← selections⟩
  else
    let text ← name
    if text = "fragment" then
      return .fragment (← fragment place)
    else
      match operationKind? text with
      | some kind => return .operation (← operation place kind)
      | none => failure

end Grammar

/- The executable document a text denotes, if it is one. -/
def ExecutableDocument.read? (text : String) :
    Option ExecutableDocument :=
  Grammar.read? (Grammar.document Grammar.executableDefinition)
    text

/- The arguments of a document that selects a single field. -/
def ExecutableDocument.onlyArguments
    (document : ExecutableDocument) :
    List (String × Literal) :=
  match document with
  | [.operation definition] =>
      match definition.selections with
      | [.field head _] => head.arguments
      | _ => []
  | _ => []

/-
  The literal a text denotes: the text stands as the only
  argument of a field, on lines of its own.
-/
def Literal.read? (text : String) : Option Literal := do
  let document ←
    ExecutableDocument.read? ("\x7ba(x:" ++ text ++ "\n)\x7d")
  match document.onlyArguments with
  | [(_, value)] => some value
  | _ => none

end GraphQL
