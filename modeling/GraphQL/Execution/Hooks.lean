import GraphQL.Schema.Basic
import GraphQL.Trace
import GraphQL.Execution.Response

/-
  What hooks do when an operation is executed.

  Key definitions include:
    * `ResolveInfo`: what a hook knows about a field
    * `Hooks`
-/

------------------------------------------------------------
-- Hooks
------------------------------------------------------------

namespace GraphQL

/- The field that is being resolved, and its surroundings. -/
structure ResolveInfo where
  schema : Schema
  parent : ObjectType
  field : OutputField
  nodes : List FieldNode
  path : List PathSegment
  operationName : Option String
  rootValue : Json
  bindings : Entries Json
  deriving Inhabited

/- The value of a field or a message, and what is reported. -/
structure Resolution where
  result : Except String Json
  events : List Trace.Event
  deriving Inhabited

namespace Resolution

/- A value, with nothing to report. -/
def value (value : Json) : Resolution :=
  ⟨.ok value, []⟩

/- A refusal, with nothing to report. -/
def refuse (message : String) : Resolution :=
  ⟨.error message, []⟩

/- The outcome of a coercion. -/
def ofLeaf : Except LeafError Json → Resolution
| .ok result => value result
| .error error => refuse error.message

end Resolution

/-
  The behaviour of hooks: the value of a field from its parent
  value and arguments, whether a value is of an object type,
  and the name of the object type of a value.
-/
structure Hooks where
  resolve :
    Hook → Json → Entries Json → ResolveInfo → Resolution
  isTypeOf : Hook → Json → ResolveInfo → Bool
  typeName : Hook → Json → ResolveInfo → Option String

end GraphQL
