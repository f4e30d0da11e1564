import GraphQL.Text.Quoted

/-
  Events that report progress.

  Key definitions include:
    * `Trace.Event`, `Trace.Value`
-/

------------------------------------------------------------
-- Events
------------------------------------------------------------

namespace GraphQL

namespace Trace

/- How important an event is. -/
inductive Level where
  | debug
  | info
  | warn
  deriving DecidableEq, Repr, Inhabited

/- The name of a level. -/
def Level.name : Level → String
| debug => "DEBUG"
| info => "INFO"
| warn => "WARN"

/- The value of a field of an event. -/
inductive Value where
  | bool (value : Bool)
  | nat (value : Nat)
  | text (value : String)
  deriving DecidableEq, Repr, Inhabited

/- An event with its named fields. -/
structure Event where
  level : Level
  message : String
  fields : List (String × Value)
  deriving DecidableEq, Repr, Inhabited

/- A field that is left out when it has no value. -/
def optional (name : String) (value : Option String) :
    List (String × Value) :=
  match value with
  | some value => [(name, .text value)]
  | none => []

end Trace

end GraphQL
