import GraphQL.TypeSystem.Edit
import GraphQL.Schema.Build
import GraphQL.Proofs.Results

/-
  Schemas that passes build.

  Key definitions include:
    * `Pass.Grows`: a pass that takes documents and types
    * `Schema.Built`: a schema that was built or extended
    * `Catalogue.schema`: a small schema that is built

  Main declarations:
    * `Pass.assemble_eq_ok_iff`
-/

------------------------------------------------------------
-- Built Schemas
------------------------------------------------------------

namespace GraphQL

/- One pass follows from another by taking what it is given. -/
inductive Pass.Grows (start : Pass) : Pass → Prop where
  | start : Grows start start
  | load {pass next : Pass} {file : Option String}
      {document : TypeSystemDocument} :
      Grows start pass →
      pass.load file document = .ok next →
      Grows start next
  | loadText {pass next : Pass} {path? : Option String}
      {text : String} :
      Grows start pass →
      pass.loadText path? text = .ok next →
      Grows start next
  | define {pass next : Pass} {type : TypeDef} :
      Grows start pass →
      pass.define type = .ok next →
      Grows start next

namespace Schema

/-
  A schema that was built, or extends one that was. Any pass
  may have its own decorator.
-/
inductive Built : Schema → Prop where
  | build {pass : Pass} {decorator? : Option Decorator}
      {schema : Schema} :
      Pass.Grows .empty pass →
      pass.build decorator? = .ok schema →
      Built schema
  | extend {base : Schema} {pass : Pass}
      {decorator? : Option Decorator} {schema : Schema} :
      Built base →
      Pass.Grows (.ofSchema base) pass →
      (base.finishExtension pass decorator?).result =
        .ok schema →
      Built schema

/- An extension ends as its pass does. -/
theorem result_finishExtension
    (base : Schema)
    (pass : Pass)
    (decorator? : Option Decorator) :
    (base.finishExtension pass decorator?).result =
      pass.build decorator? := by
  simp only [finishExtension, Pass.build]
  split <;> rfl

/- The last pass of a schema ends with it. -/
theorem Built.exists_build {schema : Schema} (h : schema.Built) :
    ∃ pass decorator?,
      Pass.build pass decorator? = .ok schema := by
  cases h with
  | build _ hBuild => exact ⟨_, _, hBuild⟩
  | extend _ _ hFinish =>
      rw [result_finishExtension] at hFinish
      exact ⟨_, _, hFinish⟩

end Schema

/- A pass that is finished has assembled a graph of types. -/
theorem Pass.exists_assemble_of_build
    {pass : Pass}
    {decorator? : Option Decorator}
    {schema : Schema}
    (h : pass.build decorator? = .ok schema) :
    ∃ graph, pass.assemble graph = .ok schema := by
  rw [build, finish] at h
  split at h
  · exact absurd h (by simp)
  · simp only at h
    split at h
    · exact absurd h (by simp)
    · split at h
      · exact absurd h (by simp)
      · next graph hGraph => exact ⟨graph, h⟩

/- What is computed of the schema of a document, it has. -/
theorem Schema.exists_of_document
    {document : TypeSystemDocument}
    {α : Type}
    {observe : Schema → α}
    {seen : α}
    (h : (do
      let pass ← Pass.empty.load none document
      let schema ← pass.build none
      return observe schema) = .ok seen) :
    ∃ pass schema,
      Pass.empty.load none document = .ok pass ∧
        pass.build none = .ok schema ∧
        observe schema = seen := by
  rcases Results.bind_eq_ok_iff.1 h with ⟨pass, hPass, hRest⟩
  rcases Results.bind_eq_ok_iff.1 hRest with
    ⟨schema, hSchema, hSeen⟩
  cases hSeen
  exact ⟨pass, schema, hPass, hSchema, rfl⟩

/-
  A pass assembles a graph that is valid, with the root types
  that are settled and with all its directives.
-/
theorem Pass.assemble_eq_ok_iff
    {pass : Pass}
    {graph : TypeGraph}
    {schema : Schema} :
    pass.assemble graph = .ok schema ↔
      schema.types = graph ∧
        schema.directives = pass.allDirectives ∧
        graph.validate = .ok () ∧
        ∀ operation,
          settleRoot graph operation
              (pass.roots.get? operation) =
            .ok (schema.roots.get? operation) := by
  unfold assemble
  constructor
  · intro h
    rcases Results.bind_eq_ok_iff.1 h with ⟨_, hValid, h⟩
    rcases Results.bind_eq_ok_iff.1 h with ⟨query?, hQuery, h⟩
    cases query? with
    | none => exact absurd h (by simp [throw, throwThe,
        MonadExceptOf.throw])
    | some query =>
        rcases Results.bind_eq_ok_iff.1 h with
          ⟨mutation?, hMutation, h⟩
        rcases Results.bind_eq_ok_iff.1 h with
          ⟨subscription?, hSubscription, h⟩
        cases h
        refine ⟨rfl, rfl, hValid, ?_⟩
        intro operation
        cases operation with
        | query => exact hQuery
        | mutation => exact hMutation
        | subscription => exact hSubscription
  · intro hParts
    rcases schema with
      ⟨types, directives, query, mutation, subscription⟩
    rcases hParts with ⟨rfl, rfl, hValid, hRoots⟩
    refine Results.bind_eq_ok_iff.2 ⟨(), hValid, ?_⟩
    refine Results.bind_eq_ok_iff.2
      ⟨some query, hRoots .query, ?_⟩
    refine Results.bind_eq_ok_iff.2
      ⟨mutation, hRoots .mutation, ?_⟩
    exact Results.bind_eq_ok_iff.2
      ⟨subscription, hRoots .subscription, rfl⟩

------------------------------------------------------------
-- A Catalogue
------------------------------------------------------------

/-
  A small schema: items of a catalogue, and books, which have
  pages and sequels.
-/
namespace Catalogue

/- All that is declared stands here. -/
def position : Position :=
  ⟨1, 1⟩

def place : SourceLocation :=
  .ofSchema none position

/- A field declared without arguments. -/
def declared (name : String) (type : TypeExpr) :
    FieldDefinition :=
  ⟨position, none, name, [], type, []⟩

/- The declarations. -/
def document : TypeSystemDocument :=
  [ .type
      ⟨position, none, "Item", [],
        .interface [] [declared "title" (.nonNull (.named "String"))]⟩,
    .type
      ⟨position, none, "Book", [],
        .object ["Item"]
          [ declared "title" (.nonNull (.named "String")),
            declared "sequel" (.named "Item"),
            { declared "pages" (.list (.nonNull (.named "Int"))) with
              arguments :=
                [⟨position, none, "first", .named "Int",
                  some (.int 2), []⟩] }]⟩,
    .type
      ⟨position, none, "Query", [],
        .object [] [declared "items" (.list (.named "Item"))]⟩]

/- The header of a declared type. -/
def header (name : String) : TypeHeader :=
  ⟨name, place, none, [], [], []⟩

/- A field of a declared type. -/
def field (name : String) (type : TypeRef) :
    String × OutputField :=
  (name, { OutputField.ofName name type with location := place })

def title : String × OutputField :=
  field "title" (.named "String" false place)

def item : InterfaceType :=
  ⟨header "Item", ⟨[title], [], none⟩, none⟩

def sequel : String × OutputField :=
  field "sequel" (.named "Item" true place)

def pages : String × OutputField :=
  let first : InputValue :=
    ⟨"first", .named "Int" true place, some (.int 2), none,
      place, []⟩
  ("pages",
    { OutputField.ofName "pages"
        (.list (.named "Int" false place) true place) with
      location := place
      arguments := [("first", first)] })

def book : ObjectType :=
  ⟨header "Book", ⟨[title, sequel, pages], ["Item"], none⟩, none⟩

def query : ObjectType :=
  ⟨header "Query",
    ⟨[field "items" (.list (.named "Item" true place) true place)],
      [], none⟩, none⟩

/- The schema of the declarations. -/
def schema : Schema where
  types :=
    { types := TypeGraph.builtin.types ++
        [ .defined (.interface item), .defined (.object book),
          .defined (.object query)]
      nodup_names := by decide }
  directives := BuiltinDirective.all.map .builtin
  query := ⟨"Query", place⟩
  mutation := none
  subscription := none

/- The pass that takes the declarations. -/
def pass : Pass :=
  { Pass.empty with
    draft :=
      [ ⟨.interface item, true⟩, ⟨.object book, true⟩,
        ⟨.object query, true⟩] }

theorem load_document :
    Pass.empty.load none document = .ok pass := by
  rfl

theorem build_pass : pass.build none = .ok schema := by
  with_unfolding_all rfl

/- The schema is built from its declarations. -/
theorem built : schema.Built :=
  .build (.load .start load_document) build_pass

end Catalogue

end GraphQL
