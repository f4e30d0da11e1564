import GraphQL.Document.Literal

/-
  Executable documents: operations and fragments.

  Key definitions include:
    * `Selection`, `FieldHead`, `FieldNode`
    * `Operation`, `Fragment`
    * `ExecutableDocument`
-/

------------------------------------------------------------
-- Selections
------------------------------------------------------------

namespace GraphQL

/- A selected field without its own selections. -/
structure FieldHead where
  position : Position
  label : Option String
  name : String
  arguments : List (String × Literal)
  annotations : List Annotation
  deriving Repr, Inhabited

/- The key of a field in the response: its alias or its name. -/
def FieldHead.responseKey (field : FieldHead) : String :=
  field.label.getD field.name

/- A reference to a fragment definition. -/
structure FragmentSpread where
  position : Position
  name : String
  annotations : List Annotation
  deriving Repr, Inhabited

/- An inline fragment without its selections. -/
structure InlineHead where
  position : Position
  condition : Option String
  annotations : List Annotation
  deriving Repr, Inhabited

/- A member of a selection set. -/
inductive Selection where
  | field (head : FieldHead) (selections : List Selection)
  | spread (spread : FragmentSpread)
  | inline (head : InlineHead) (selections : List Selection)
  deriving Repr, Inhabited

/- The annotations of a selection. -/
def Selection.annotations : Selection → List Annotation
| field head _ => head.annotations
| spread s => s.annotations
| inline head _ => head.annotations

/- A selected field with its selections. -/
structure FieldNode where
  head : FieldHead
  selections : List Selection
  deriving Repr, Inhabited

------------------------------------------------------------
-- Definitions
------------------------------------------------------------

/- The three kinds of operation. -/
inductive OperationKind where
  | query
  | mutation
  | subscription
  deriving DecidableEq, Repr, Inhabited

/- The name of an operation kind in messages. -/
def OperationKind.name : OperationKind → String
| query => "Query"
| mutation => "Mutation"
| subscription => "Subscription"

/- A variable of an operation. -/
structure VariableDefinition where
  position : Position
  name : String
  type : TypeExpr
  default : Option Literal
  deriving Repr, Inhabited

/- An operation; the short form is a query without a name. -/
structure Operation where
  kind : OperationKind
  position : Position
  name : Option String
  definitions : List VariableDefinition
  annotations : List Annotation
  selections : List Selection
  deriving Repr, Inhabited

/- A named fragment. -/
structure Fragment where
  position : Position
  name : String
  condition : String
  annotations : List Annotation
  selections : List Selection
  deriving Repr, Inhabited

/- A definition of an executable document. -/
inductive ExecutableDefinition where
  | operation (definition : Operation)
  | fragment (definition : Fragment)
  deriving Repr, Inhabited

/- The definitions of an executable document, in order. -/
abbrev ExecutableDocument := List ExecutableDefinition

namespace ExecutableDocument

/- The operations of a document. -/
def operations (document : ExecutableDocument) :
    List Operation :=
  document.filterMap fun
  | .operation definition => some definition
  | .fragment _ => none

/- The fragments of a document. -/
def fragments (document : ExecutableDocument) :
    List Fragment :=
  document.filterMap fun
  | .operation _ => none
  | .fragment definition => some definition

end ExecutableDocument

end GraphQL
