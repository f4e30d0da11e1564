import GraphQL.TypeSystem.Graph

/-
  Cycles of input objects that no finite value can satisfy.

  A field leads on if its type is a non-null name: null and the
  empty list end every chain.

  Key definitions include:
    * `InputObjectType.cycleErrors`
-/

------------------------------------------------------------
-- Cycles
------------------------------------------------------------

namespace GraphQL

namespace InputObjectType

/- The name a field requires a value of, if it requires one. -/
def required? : TypeRef → Option String
| .named name false _ => some name
| _ => none

/-
  Chains of required fields that return to one of the types
  they pass. No chain passes more types than the graph has.
-/
def cyclesFrom (graph : TypeGraph) :
    (depth : Nat) → (type : String) → Entries InputValue →
      (path visiting : List String) → List TypeError
| 0, _, _, _, _ => []
| depth + 1, type, fields, path, visiting =>
    fields.flatMap fun (name, field) =>
      match required? field.type with
      | none => []
      | some target =>
          let path := path ++ [type ++ "." ++ name]
          if visiting.contains target then
            [.inputCycle (path ++ [target])]
          else
            match graph.lookup target with
            | some (.defined (.inputObject next)) =>
                cyclesFrom graph depth target next.fields path
                  (target :: visiting)
            | _ => []

/- The cycles that start at a type. -/
def cycleErrors (graph : TypeGraph) (type : InputObjectType) :
    List TypeError :=
  cyclesFrom graph (graph.size + 1) type.name type.fields []
    [type.name]

end InputObjectType

end GraphQL
