import GraphQL.Schema.Declared

/-
  Drafts: the types of a schema that is being built.

  Types of a base schema are carried over until an extension
  touches them; new types are touched from the start.

  Key definitions include:
    * `Draft`, `Draft.ofGraph`
    * `Draft.define`
    * `Draft.extend?`
-/

------------------------------------------------------------
-- Drafts
------------------------------------------------------------

namespace GraphQL

/- A type of a draft, and whether the current pass touched it. -/
structure DraftEntry where
  type : TypeDef
  touched : Bool
  deriving Inhabited

/- The types of a draft, those of the base schema first. -/
abbrev Draft := List DraftEntry

namespace Draft

/- The types of a graph, all untouched. -/
def ofGraph (graph : TypeGraph) : Draft :=
  graph.types.filterMap fun
  | .builtin _ => none
  | .defined type => some ⟨type, false⟩

/- The type of a name. -/
def find? (draft : Draft) (name : String) : Option DraftEntry :=
  List.find? (fun entry => entry.type.name == name) draft

/- The names of touched types. -/
def touchedNames (draft : Draft) : List String :=
  (draft.filter DraftEntry.touched).map fun entry =>
    entry.type.name

/- Put a touched type in the place of the one of its name. -/
def replace (draft : Draft) (name : String) (type : TypeDef) :
    Draft :=
  draft.map fun entry =>
    if entry.type.name = name then ⟨type, true⟩ else entry

------------------------------------------------------------
-- Definitions And Extensions
------------------------------------------------------------

/- Add a type whose name is neither reserved nor taken. -/
def define (draft : Draft) (type : TypeDef) :
    Except BuildError Draft :=
  let name := type.name
  if Name.isReserved name then
    .error (.reservedType name type.location)
  else if (BuiltinScalar.ofName? name).isSome then
    .error (.duplicateType name .builtin type.location)
  else
    match draft.find? name with
    | some entry =>
        .error
          (.duplicateType name entry.type.location type.location)
    | none => .ok (draft ++ [⟨type, true⟩])

/- Extend a type, if the draft has one of that name. -/
def extend?
    (draft : Draft)
    (location : SourceLocation)
    (extension : TypeExtension) :
    Except BuildError (Option Draft) :=
  let name := extension.name
  match BuiltinScalar.ofName? name with
  | some scalar =>
      .error (.extensionOfOtherKind name scalar.kind location)
  | none =>
      match draft.find? name with
      | none => .ok none
      | some entry => do
          let type ← entry.type.extend location extension
          return some (draft.replace name type)

end Draft

end GraphQL
