import GraphQL.Schema.Pass
import GraphQL.Schema.Protection
import GraphQL.Trace

/-
  Building and extending schemas.

  The types that a pass touched are decorated one by one in
  draft order and registered in a graph, which is validated as
  a whole. Then the root types are settled.

  Key definitions include:
    * `Pass.materialize`
    * `Pass.finish`: the schema of a pass, or why there is none
    * `Schema.extend`
-/

------------------------------------------------------------
-- Root Types
------------------------------------------------------------

namespace GraphQL

namespace Pass

/-
  The root type of a kind of operation. A declared one has to
  be an object; else an object of the usual name will do.
-/
def settleRoot
    (graph : TypeGraph)
    (operation : OperationKind)
    (declared? : Option RootReference) :
    Except BuildError (Option RootReference) :=
  match declared? with
  | some ref =>
      match (graph.lookup ref.type).bind NamedType.object? with
      | some _ => .ok (some ref)
      | none =>
          .error (.rootNotObject operation ref.type ref.location)
  | none =>
      match graph.lookup operation.name with
      | some (.defined (.object type)) =>
          .ok (some ⟨operation.name, type.header.location⟩)
      | _ => .ok none

------------------------------------------------------------
-- Types
------------------------------------------------------------

/- What the decorator is handed of an entry of a draft. -/
def handedOver
    (decorator? : Option Decorator)
    (entry : DraftEntry) : List TypeDef :=
  if decorator?.isSome && entry.touched then
    [entry.type]
  else
    []

/- The type of an entry, decorated if it was touched. -/
def finished
    (decorator? : Option Decorator)
    (entry : DraftEntry) : Except BuildError TypeDef :=
  match decorator? with
  | some decorator =>
      if entry.touched then
        decorator.apply entry.type
      else
        .ok entry.type
  | none => .ok entry.type

/-
  Register the types of a draft in turn. The answer tells what
  the decorator was handed before the end or the first failure.
-/
def materialize (decorator? : Option Decorator) :
    TypeGraph → Draft →
      List TypeDef × Except BuildError TypeGraph
| graph, [] => ([], .ok graph)
| graph, entry :: rest =>
    let handed := handedOver decorator? entry
    let result := do
      let type ← finished decorator? entry
      graph.register (.defined type)
    match result with
    | .ok graph =>
        let (later, result) :=
          materialize decorator? graph rest
        (handed ++ later, result)
    | .error error => (handed, .error error)

/- The decorator may only expect types of the pass. -/
def checkExpected
    (decorator? : Option Decorator)
    (draft : Draft) : Except BuildError Unit :=
  let expected :=
    match decorator? with
    | some decorator => decorator.types
    | none => []
  expected.forM fun name =>
    if draft.touchedNames.contains name then
      .ok ()
    else
      .error (.unknownType name)

------------------------------------------------------------
-- Schemas
------------------------------------------------------------

/- The end of a pass, and what led to it. -/
structure Outcome where
  result : Except BuildError Schema
  handed : List TypeDef
  events : List Trace.Event

/- The report that a pass is about to be finished. -/
def startEvent (pass : Pass) (draft : Draft) : Trace.Event :=
  ⟨.debug, "building schema",
    [ ("extending", .bool pass.extending),
      ("touched_types",
        .text (Text.debugList draft.touchedNames))]⟩

/- The report that all types are registered. -/
def graphEvent (draft : Draft) (graph : TypeGraph) :
    Trace.Event :=
  ⟨.debug, "materialized type graph",
    [ ("num_types", .nat graph.size),
      ("num_touched", .nat draft.touchedNames.length)]⟩

/- The schema of a graph that holds the types of a pass. -/
def assemble (pass : Pass) (graph : TypeGraph) :
    Except BuildError Schema := do
  graph.validate
  match ← settleRoot graph .query pass.roots.query with
  | none => throw .noQueryType
  | some query =>
      let mutation ←
        settleRoot graph .mutation pass.roots.mutation
      let subscription ←
        settleRoot graph .subscription pass.roots.subscription
      return {
        types := graph
        directives := pass.allDirectives
        query := query
        mutation := mutation
        subscription := subscription }

/- Finish a pass. -/
def finish (pass : Pass) (decorator? : Option Decorator) :
    Outcome :=
  match pass.settle with
  | .error error => ⟨.error error, [], []⟩
  | .ok draft =>
      let started := pass.startEvent draft
      match checkExpected decorator? draft with
      | .error error => ⟨.error error, [], [started]⟩
      | .ok _ =>
          match materialize decorator? .builtin draft with
          | (handed, .error error) =>
              ⟨.error error, handed, [started]⟩
          | (handed, .ok graph) =>
              ⟨pass.assemble graph, handed,
                [started, graphEvent draft graph]⟩

/- The schema of a pass. -/
def build (pass : Pass) (decorator? : Option Decorator) :
    Except BuildError Schema :=
  (pass.finish decorator?).result

end Pass

------------------------------------------------------------
-- Extension
------------------------------------------------------------

namespace Schema

/- The report that a schema is extended. -/
def extendedEvent (base extended : Schema) : Trace.Event :=
  ⟨.debug, "extended schema",
    [ ("base_types", .nat base.types.size),
      ("extended_types", .nat extended.types.size)]⟩

/- Finish a pass that extends a schema. -/
def finishExtension
    (base : Schema)
    (pass : Pass)
    (decorator? : Option Decorator) : Pass.Outcome :=
  let outcome := pass.finish decorator?
  match outcome.result with
  | .ok extended =>
      { outcome with
        events := outcome.events ++ [base.extendedEvent extended] }
  | .error _ => outcome

/- Extend a schema by documents that come without a file. -/
def extend
    (base : Schema)
    (documents : List TypeSystemDocument)
    (decorator? : Option Decorator) :
    Except BuildError Schema := do
  let pass ← documents.foldlM
    (fun pass document => Pass.load pass none document)
    (.ofSchema base)
  pass.build decorator?

end Schema

end GraphQL
