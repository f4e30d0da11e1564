import GraphQL.TypeSystem.TypeRef
import GraphQL.Suggestion

/-
  Kinds of types, and the ways in which a value can fail to be
  a value of a leaf type.

  Key definitions include:
    * `TypeKind`
    * `LeafError`, `LeafError.message`
-/

------------------------------------------------------------
-- Kinds
------------------------------------------------------------

namespace GraphQL

/- The kinds of named types; each built-in scalar is one. -/
inductive TypeKind where
  | boolean
  | enum
  | float
  | id
  | inputObject
  | int
  | interface
  | object
  | scalar
  | string
  | union
  deriving DecidableEq, Repr, Inhabited

namespace TypeKind

/- The name of a kind. -/
def name : TypeKind → String
| boolean => "Boolean"
| enum => "Enum"
| float => "Float"
| id => "ID"
| inputObject => "InputObject"
| int => "Int"
| interface => "Interface"
| object => "Object"
| scalar => "Scalar"
| string => "String"
| union => "Union"

/- Interfaces and unions. -/
def isAbstract : TypeKind → Bool
| interface => true
| union => true
| _ => false

end TypeKind

------------------------------------------------------------
-- Failures
------------------------------------------------------------

/- What a built-in scalar asks of a value. -/
inductive ScalarRule where
  | boolean
  | numeric
  | id
  | idLiteral
  | integer
  | integer32
  | string
  | stringOutput
  deriving DecidableEq, Repr, Inhabited

/- The words that introduce a value that breaks a rule. -/
def ScalarRule.words : ScalarRule → String
| boolean => "Boolean cannot represent a non boolean value: "
| numeric => "Float cannot represent non numeric value: "
| id => "ID cannot represent value: "
| idLiteral =>
    "ID cannot represent a non-string and non-integer value: "
| integer => "Int cannot represent non-integer value: "
| integer32 =>
    "Int cannot represent non 32-bit signed integer value: "
| string => "String cannot represent a non string value: "
| stringOutput => "String cannot represent value: "

/- Why a value is not a value of a leaf type. -/
inductive LeafError where
  | scalar (rule : ScalarRule) (printed : String)
  | enumInternal (printed : String)
  | enumNotString (enum printed : String)
  | enumNotLiteral
      (enum printed : String)
      (options : List String)
  | enumUnknown (enum value : String) (options : List String)
  | notLeaf (kind : TypeKind) (name : String)
  | custom (message : String)
  deriving DecidableEq, Repr, Inhabited

/- The question that ends a message about an enum value. -/
def LeafError.question (options : List String) : String :=
  Suggestion.didYouMean (some "the enum value") options

/- The message of a failure. -/
def LeafError.message : LeafError → String
| scalar rule printed => rule.words ++ printed
| enumInternal printed =>
    s!"Cannot serialize value as enum: {printed}"
| enumNotString enum printed =>
    s!"Enum \"{enum}\" cannot represent non-string value: " ++
      s!"{printed}."
| enumNotLiteral enum printed options =>
    s!"Enum \"{enum}\" cannot represent non-enum value: " ++
      s!"{printed}." ++ question options
| enumUnknown enum value options =>
    s!"Value \"{value}\" does not exist in \"{enum}\" enum." ++
      question options
| notLeaf kind name =>
    kind.name ++ s!" type `{name}` is not a leaf type"
| custom message => message

end GraphQL
