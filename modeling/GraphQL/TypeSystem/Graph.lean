import GraphQL.Name
import GraphQL.TypeSystem.Coercion
import GraphQL.TypeSystem.BuildError

/-
  Type graphs: the types of a schema by name.

  A graph keeps its types in the order of registration, the
  built-in scalars first. No two of them share a name.

  Key definitions include:
    * `TypeGraph`, `TypeGraph.builtin`
    * `TypeGraph.lookup`
    * `TypeGraph.register`
-/

------------------------------------------------------------
-- Graphs
------------------------------------------------------------

namespace GraphQL

/- The types of a schema in the order of registration. -/
structure TypeGraph where
  types : List NamedType
  nodup_names : (types.map NamedType.name).Nodup

namespace TypeGraph

/- The graph of the built-in scalars. -/
def builtin : TypeGraph where
  types := BuiltinScalar.all.map NamedType.builtin
  nodup_names := by decide

instance : Inhabited TypeGraph :=
  ⟨builtin⟩

/- The type of a name. -/
def lookup (graph : TypeGraph) (name : String) :
    Option NamedType :=
  graph.types.find? fun type => type.name == name

/- Whether a name has a type. -/
def contains (graph : TypeGraph) (name : String) : Bool :=
  (graph.lookup name).isSome

/- The names of all types in the order of registration. -/
def names (graph : TypeGraph) : List String :=
  graph.types.map NamedType.name

/- The names of all types in alphabetical order. -/
def sortedNames (graph : TypeGraph) : List String :=
  graph.names.mergeSort fun a b => a ≤ b

/- The number of types. -/
def size (graph : TypeGraph) : Nat :=
  graph.types.length

/- The object types in the order of registration. -/
def objects (graph : TypeGraph) : List ObjectType :=
  graph.types.filterMap NamedType.object?

------------------------------------------------------------
-- Lookup Laws
------------------------------------------------------------

/- A type that is found has the name it was looked up by. -/
theorem name_of_lookup
    {graph : TypeGraph}
    {name : String}
    {type : NamedType}
    (h : graph.lookup name = some type) :
    type.name = name := by
  have hName := List.find?_some h
  simpa using hName

/- A type that is found is a type of the graph. -/
theorem mem_of_lookup
    {graph : TypeGraph}
    {name : String}
    {type : NamedType}
    (h : graph.lookup name = some type) :
    type ∈ graph.types :=
  List.mem_of_find?_eq_some h

/- A name is found exactly when some type bears it. -/
theorem lookup_eq_none_iff
    (graph : TypeGraph)
    (name : String) :
    graph.lookup name = none ↔
      name ∉ graph.types.map NamedType.name := by
  simp [lookup]

/- Every type of a graph is found by its name. -/
theorem lookup_of_mem
    {graph : TypeGraph}
    {type : NamedType}
    (h : type ∈ graph.types) :
    graph.lookup type.name = some type := by
  obtain ⟨types, hNodup⟩ := graph
  simp only [lookup] at h ⊢
  induction types with
  | nil => simp at h
  | cons first rest ih =>
      simp only [List.map_cons, List.nodup_cons] at hNodup
      rcases List.mem_cons.1 h with rfl | hRest
      · simp
      · have hNe : first.name ≠ type.name := fun hEq =>
          hNodup.1 (hEq ▸ List.mem_map_of_mem hRest)
        simpa [hNe] using ih hNodup.2 hRest

------------------------------------------------------------
-- Registration
------------------------------------------------------------

/- Add a type whose name is not taken. -/
def add
    (graph : TypeGraph)
    (type : NamedType)
    (h : graph.lookup type.name = none) : TypeGraph where
  types := graph.types ++ [type]
  nodup_names := by
    have hNew := (graph.lookup_eq_none_iff type.name).1 h
    rw [List.map_append, List.nodup_append]
    refine ⟨graph.nodup_names, by simp, ?_⟩
    intro name hName last hLast hEq
    simp only [List.map_cons, List.map_nil,
      List.mem_singleton] at hLast
    exact hNew (hLast ▸ hEq ▸ hName)

/- Add a type under its name, if the name may be used. -/
def register (graph : TypeGraph) (type : NamedType) :
    Except BuildError TypeGraph :=
  if !Name.isValid type.name then
    .error (.typeName type.name type.location)
  else if Name.isReserved type.name then
    .error (.reservedType type.name type.location)
  else
    match h : graph.lookup type.name with
    | some other =>
        .error
          (.duplicateType type.name other.location type.location)
    | none => .ok (graph.add type h)

end TypeGraph

end GraphQL
