import GraphQL.Document.Literal
import GraphQL.Json.Record

/-
  Where elements of the type system come from.

  Elements with a location in schema text are protected: their
  declared attributes belong to the text.

  Key definitions include:
    * `FilePosition`
    * `SourceLocation`, `SourceLocation.isSdl`
-/

------------------------------------------------------------
-- Locations
------------------------------------------------------------

namespace GraphQL

/- A place in a file, or in text without a file. -/
structure FilePosition where
  column : Nat
  file : Option String
  line : Nat
  deriving DecidableEq, Repr, Inhabited

/- Where an element comes from. -/
inductive SourceLocation where
  | executable (place : FilePosition)
  | builtin
  | programmatic
  | schema (place : FilePosition)
  deriving DecidableEq, Repr, Inhabited

/- A place in a file. -/
def FilePosition.ofPosition
    (file : Option String) (pos : Position) : FilePosition :=
  ⟨pos.column, file, pos.line⟩

namespace SourceLocation

/- A place in schema text. -/
def ofSchema (file : Option String) (pos : Position) :
    SourceLocation :=
  schema (.ofPosition file pos)

/- Whether the location points into schema text. -/
def isSdl : SourceLocation → Bool
| schema _ => true
| _ => false

/- The place in a text, if there is one. -/
def place? : SourceLocation → Option FilePosition
| executable place => some place
| schema place => some place
| builtin => none
| programmatic => none

/- The same text at another position. -/
def moved (location : SourceLocation) (pos : Position) :
    SourceLocation :=
  match location with
  | executable place =>
      executable (.ofPosition place.file pos)
  | schema place => schema (.ofPosition place.file pos)
  | builtin => builtin
  | programmatic => programmatic

/- Moving within schema text stays within schema text. -/
theorem isSdl_moved
    (location : SourceLocation)
    (pos : Position) :
    (location.moved pos).isSdl = location.isSdl := by
  cases location <;> rfl

end SourceLocation

------------------------------------------------------------
-- JSON
------------------------------------------------------------

namespace FilePosition

/- A place as a record. -/
def toJson (place : FilePosition) : Json :=
  .object
    [ ("col", .ofNat place.column),
      ("file", (place.file.map Json.string).getD .null),
      ("line", .ofNat place.line)]

/- Read a place. Only the file may be missing. -/
def ofJson? (value : Json) : Option FilePosition := do
  match ← value.slots? ["col", "file", "line"] 3 with
  | [some column, file, some line] =>
      let column ← column.readNat?
      let file ← (file.getD .null).readOptionalString?
      let line ← line.readNat?
      return ⟨column, file, line⟩
  | _ => none

end FilePosition

namespace SourceLocation

/- A location as the name of its case with its place. -/
def toJson : SourceLocation → Json
| executable place =>
    .object [("ExecutableDocument", place.toJson)]
| builtin => .string "GraphQLBuiltIn"
| programmatic => .string "Programmatic"
| schema place => .object [("Schema", place.toJson)]

/- Read a location. -/
def ofJson? : Json → Option SourceLocation
| .string "GraphQLBuiltIn" => some builtin
| .string "Programmatic" => some programmatic
| .object [("GraphQLBuiltIn", .null)] => some builtin
| .object [("Programmatic", .null)] => some programmatic
| .object [("ExecutableDocument", place)] =>
    (FilePosition.ofJson? place).map executable
| .object [("Schema", place)] =>
    (FilePosition.ofJson? place).map schema
| _ => none

end SourceLocation

end GraphQL
