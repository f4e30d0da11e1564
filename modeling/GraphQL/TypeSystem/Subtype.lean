import GraphQL.TypeSystem.Graph

/-
  Subtyping: where a value of one type may stand for a value of
  another.

  Key definitions include:
    * `TypeGraph.isNameSubtype`
    * `TypeGraph.isSubtype`
-/

------------------------------------------------------------
-- Subtypes
------------------------------------------------------------

namespace GraphQL

namespace TypeGraph

/-
  Whether one named type is another, declares the other as an
  interface, or is one of its members. The interfaces of an
  interface count only as far as they are declared.
-/
def isNameSubtype (graph : TypeGraph) (sub super : String) :
    Bool :=
  match graph.lookup sub, graph.lookup super with
  | some a, some b =>
      if a.name == b.name then
        true
      else
        match a, b with
        | .defined (.interface a), .defined (.interface b) =>
            a.implements b.name
        | .defined (.object a), .defined (.interface b) =>
            a.implements b.name
        | .defined (.object a), .defined (.union b) =>
            b.members.contains a.name
        | _, _ => false
  | _, _ => false

/-
  Whether the values of one reference are values of another.
  Null has to be admitted at every layer that may hold it, and
  lists agree with lists only.
-/
def isSubtype (graph : TypeGraph) : TypeRef → TypeRef → Bool
| .list a nullable _, .list b nullable' _ =>
    (!nullable || nullable') && isSubtype graph a b
| .named a nullable _, .named b nullable' _ =>
    (!nullable || nullable') && graph.isNameSubtype a b
| _, _ => false

end TypeGraph

end GraphQL
