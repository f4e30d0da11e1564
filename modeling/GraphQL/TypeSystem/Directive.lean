import GraphQL.TypeSystem.Definition

/-
  Directive definitions, built in or declared in schema text.

  Key definitions include:
    * `BuiltinDirective`, `CustomDirective`
    * `Directive`
-/

------------------------------------------------------------
-- Built-In Directives
------------------------------------------------------------

namespace GraphQL

/- The directives that every schema has. -/
inductive BuiltinDirective where
  | skip
  | include
  | deprecated
  | specifiedBy
  deriving DecidableEq, Repr, Inhabited

namespace BuiltinDirective

/- All of them, in the order in which they are added. -/
def all : List BuiltinDirective :=
  [.skip, .include, .deprecated, .specifiedBy]

def name : BuiltinDirective → String
| .skip => "skip"
| .include => "include"
| .deprecated => "deprecated"
| .specifiedBy => "specifiedBy"

def description : BuiltinDirective → String
| .skip =>
    "Directs the executor to skip this field or fragment " ++
    "when the `if` argument is true."
| .include =>
    "Directs the executor to include this field or fragment " ++
    "only when the `if` argument is true."
| .deprecated =>
    "Marks an element of a GraphQL schema as no longer " ++
    "supported."
| .specifiedBy =>
    "Exposes a URL that specifies the behavior of this scalar."

/- The only argument. -/
def argument (directive : BuiltinDirective) : InputValue :=
  let make (name : String) (type : TypeRef)
      (fallback : Option Literal) : InputValue :=
    ⟨name, type, fallback, none, .builtin, []⟩
  match directive with
  | .skip => make "if" (.ofName "Boolean" false) none
  | .include => make "if" (.ofName "Boolean" false) none
  | .deprecated =>
      make "reason" (.ofName "String" true)
        (some (.string AppliedDirective.defaultReason))
  | .specifiedBy => make "url" (.ofName "String" false) none

end BuiltinDirective

------------------------------------------------------------
-- Directives
------------------------------------------------------------

/- A directive declared in schema text. -/
structure CustomDirective where
  name : String
  location : SourceLocation
  description : Option String
  arguments : Entries InputValue
  repeatable : Bool
  locations : List String
  deriving Repr, Inhabited

/- A directive of a schema. -/
inductive Directive where
  | builtin (directive : BuiltinDirective)
  | custom (directive : CustomDirective)
  deriving Repr, Inhabited

namespace Directive

def name : Directive → String
| builtin directive => directive.name
| custom directive => directive.name

def location : Directive → SourceLocation
| builtin _ => .builtin
| custom directive => directive.location

def description : Directive → Option String
| builtin directive => some directive.description
| custom directive => directive.description

def isBuiltin : Directive → Bool
| builtin _ => true
| custom _ => false

def arguments : Directive → Entries InputValue
| builtin directive =>
    [(directive.argument.name, directive.argument)]
| custom directive => directive.arguments

end Directive

end GraphQL
