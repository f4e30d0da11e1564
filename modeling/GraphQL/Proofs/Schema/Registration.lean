import GraphQL.Proofs.Schema.CoveredDrafts
import GraphQL.Proofs.Schema.Descriptions

/-
  Types that are registered instead of defined.

  A program may register a type instead of having a document
  define it. There is a schema of the document with the
  definition if there is one of the remaining document with the
  type, and what the definition lists is listed properly. Only
  the definition is asked for the latter.

  Key definitions include:
    * `Pass.Builds`
    * `Pass.registering`

  Main declarations:
    * `Pass.Builds.of_perm`
    * `Pass.Builds.of_covers`
    * `TypeDef.Describes.builds_iff`
    * `Doubled.registered_not_defined`
-/

------------------------------------------------------------
-- Passes That Build Schemas
------------------------------------------------------------

namespace GraphQL

namespace Pass

variable {file : Option String}

/- There is a pass, and a schema of it. -/
def Builds (reached : Except BuildError Pass) : Prop :=
  ∃ pass schema,
    reached = .ok pass ∧ pass.build none = .ok schema

/- Definitions of a document may stand in any order. -/
theorem Builds.of_perm
    {document document' : TypeSystemDocument}
    (hPerm : document.Perm document')
    (h : Builds (empty.load file document)) :
    Builds (empty.load file document') := by
  rcases h with ⟨pass, schema, hPass, hSchema⟩
  rcases (load_parts_eq_ok_iff rfl).1 hPass with
    ⟨stage, directives, roots, hStage, hDirectives, hRoots,
     rfl⟩
  rcases build_eq_ok_iff.1 hSchema with
    ⟨draft, graph, hDraft, hGraph, hAssemble⟩
  -- Each part of the pass is reached in the other order, too.
  have hRun : document.foldlM (Draft.takeStage file) ([], []) >>=
      Draft.settleKinds = .ok draft :=
    Results.bind_eq_ok_iff.2 ⟨stage, hStage, hDraft⟩
  rcases (Draft.same_run_of_perm hPerm).1 draft hRun with
    ⟨draft', hRun', hDrafts⟩
  rcases Results.bind_eq_ok_iff.1 hRun' with
    ⟨stage', hStage', hDraft'⟩
  rcases (same_takeDirectives_of_perm hPerm []).1 directives
    hDirectives with ⟨directives', hDirectives', -⟩
  rcases (same_takeRoots_of_perm hPerm _).1 roots hRoots with
    ⟨_, hRoots', rfl⟩
  rcases (TypeGraph.same_registerAll_of_matches hDrafts
      (Draft.distinct_of_run hRun)
      (Draft.distinct_of_run hRun')).1 graph hGraph with
    ⟨graph', hGraph', hGraphs⟩
  let pass' := empty.withParts stage' directives' roots
  have hPass' : empty.load file document' = .ok pass' :=
    (load_parts_eq_ok_iff rfl).2
      ⟨stage', directives', roots, hStage', hDirectives',
        hRoots', rfl⟩
  have hSame : (empty.withParts stage directives roots).roots =
      pass'.roots := rfl
  rcases exists_assemble_of_covers hGraphs.covers hSame
    hAssemble with ⟨schema', hSchema', -⟩
  exact
    ⟨pass', schema', hPass', build_eq_ok_iff.2
      ⟨draft', graph', hDraft', hGraph', hSchema'⟩⟩

end Pass

/- The types of a schema are well named. -/
theorem Schema.wellNamed_of_build
    {pass : Pass}
    {decorator? : Option Decorator}
    {schema : Schema}
    {name : String}
    {type : TypeDef}
    (hBuild : pass.build decorator? = .ok schema)
    (hType : schema.lookup name = some (.defined type)) :
    type.WellNamed := by
  rcases Pass.exists_assemble_of_build hBuild with
    ⟨graph, hAssemble⟩
  rcases Pass.assemble_eq_ok_iff.1 hAssemble with
    ⟨rfl, -, hValid, -⟩
  have hSound := (TypeGraph.validate_eq_ok_iff.1 hValid).1
  unfold TypeGraph.flawed? at hSound
  rw [List.findSome?_eq_none_iff] at hSound
  have hNone := hSound _ (TypeGraph.mem_of_lookup hType)
  rw [NamedType.flawed?, Option.map_eq_none_iff] at hNone
  exact TypeDef.wellNamed_of_flaw?_eq_none hNone

------------------------------------------------------------
-- Registered Types
------------------------------------------------------------

namespace Pass

variable {file : Option String}

/- Register a type between two parts of a document. -/
def registering
    (file : Option String)
    (first : TypeSystemDocument)
    (type : TypeDef)
    (second : TypeSystemDocument) : Except BuildError Pass := do
  let pass ← empty.load file first
  let pass ← pass.define type
  pass.load file second

variable {first second : TypeSystemDocument}
variable {type type' : TypeDef} {definition : TypeDefinition}

theorem registering_eq_ok_iff {last : Pass} :
    registering file first type second = .ok last ↔
      ∃ pass draft,
        empty.load file first = .ok pass ∧
          pass.draft.define type = .ok draft ∧
          { pass with draft := draft }.load file second =
            .ok last := by
  simp only [registering, define, Results.bind_eq_ok_iff]
  constructor
  · rintro ⟨pass, hPass, _, ⟨draft, hDraft, hNext⟩, hLast⟩
    cases hNext
    exact ⟨pass, draft, hPass, hDraft, hLast⟩
  · rintro ⟨pass, draft, hPass, hDraft, hLast⟩
    exact ⟨pass, hPass, _, ⟨draft, hDraft, rfl⟩, hLast⟩

/- To define a type is to register the type that is read. -/
theorem builds_definition_iff :
    Builds (empty.load file (first ++ .type definition :: second)) ↔
      ∃ read,
        TypeDef.ofDefinition
            (.ofSchema file definition.position) definition =
          .ok read ∧
        Builds (registering file first read second) := by
  have hReached : ∀ last,
      empty.load file (first ++ .type definition :: second) =
          .ok last ↔
        ∃ read,
          TypeDef.ofDefinition
              (.ofSchema file definition.position) definition =
            .ok read ∧
          registering file first read second = .ok last := by
    intro last
    simp only [load, registering, List.foldlM_append,
      List.foldlM_cons, take, Results.bind_eq_ok_iff]
    constructor
    · rintro ⟨pass, hPass, next, ⟨read, hRead, hNext⟩, hLast⟩
      exact ⟨read, hRead, pass, hPass, next, hNext, hLast⟩
    · rintro ⟨read, hRead, pass, hPass, next, hNext, hLast⟩
      exact ⟨pass, hPass, next, ⟨read, hRead, hNext⟩, hLast⟩
  simp only [Builds, hReached]
  constructor
  · rintro ⟨pass, schema, ⟨read, hRead, hPass⟩, hSchema⟩
    exact ⟨read, hRead, pass, schema, hPass, hSchema⟩
  · rintro ⟨read, hRead, pass, schema, hPass, hSchema⟩
    exact ⟨pass, schema, ⟨read, hRead, hPass⟩, hSchema⟩

/- A type may be registered in the place of one that covers it. -/
theorem Builds.of_covers
    (hCovers : type.Covers type')
    (h : Builds (registering file first type second)) :
    Builds (registering file first type' second) := by
  rcases h with ⟨last, schema, hLast, hSchema⟩
  rcases registering_eq_ok_iff.1 hLast with
    ⟨pass, draft, hPass, hDraft, hSecond⟩
  have hStart : pass.extending = false := by
    rcases (load_parts_eq_ok_iff rfl).1 hPass with
      ⟨_, _, _, -, -, -, rfl⟩
    rfl
  rcases (Draft.Covers.refl pass.draft).exists_define hCovers
    hDraft with ⟨draft', hDraft', hDrafts⟩
  have hPasses : Covers { pass with draft := draft }
      { pass with draft := draft' } :=
    ⟨⟨hDrafts, rfl⟩, rfl, rfl, rfl⟩
  rcases hPasses.exists_load hStart hSecond with
    ⟨last', hLast', hLasts⟩
  rcases hLasts.exists_build ⟨schema, hSchema⟩ with
    ⟨schema', hSchema'⟩
  exact
    ⟨last', schema', registering_eq_ok_iff.2
      ⟨pass, draft', hPass, hDraft', hLast'⟩, hSchema'⟩

/- A type that is registered for a schema is well named. -/
theorem Builds.wellNamed
    (h : Builds (registering file first type second)) :
    type.WellNamed := by
  rcases h with ⟨last, schema, hLast, hSchema⟩
  rcases registering_eq_ok_iff.1 hLast with
    ⟨pass, draft, hPass, hDraft, hSecond⟩
  by_contra hNot
  -- Extensions do not mend what is wrong with a name.
  have hKept : TypeDef.KeptByExtension
      (fun type => ¬type.WellNamed) :=
    fun hExtends hType hNext => hType (hExtends.wellNamed hNext)
  have hHas :
      draft.Has type.name (fun type => ¬type.WellNamed) := by
    rcases Draft.define_eq_ok_iff.1 hDraft with
      ⟨-, -, hFree, rfl⟩
    refine ⟨⟨type, true⟩, ?_, hNot⟩
    rw [Draft.find?_append, hFree, Option.none_or, if_pos rfl]
  have hLoaded : Grows { pass with draft := draft } last :=
    .load .start hSecond
  rcases Schema.exists_of_build hKept
      (fun hFinished hType => by
        cases hFinished
        exact hType)
      hSchema (hLoaded.has hKept hHas) with
    ⟨found, hFound, hFlawed⟩
  exact hFlawed (Schema.wellNamed_of_build hSchema hFound)

end Pass

/-
  There is a schema of a document exactly if one of its type
  definitions is orderly, and there is a schema with a type that
  it describes in its place. The definitions may be in another
  order, and the type registered at any time.
-/
theorem TypeDef.Describes.builds_iff
    {type : TypeDef}
    {definition : TypeDefinition}
    (h : type.Describes definition)
    {before after first second : TypeSystemDocument}
    (hOrder : (before ++ after).Perm (first ++ second))
    (file : Option String) :
    Pass.Builds
        (Pass.empty.load file
          (before ++ .type definition :: after)) ↔
      definition.Orderly ∧
        Pass.Builds
          (Pass.registering file first type second) := by
  have hPerm : (before ++ .type definition :: after).Perm
      (first ++ .type definition :: second) :=
    (List.perm_middle.trans (hOrder.cons _)).trans
      List.perm_middle.symm
  constructor
  · intro hText
    rcases Pass.builds_definition_iff.1 (hText.of_perm hPerm)
      with ⟨read, hRead, hBuilds⟩
    rcases h.covers hRead with ⟨-, hCovers, hOrderly⟩
    exact ⟨hOrderly, hBuilds.of_covers hCovers⟩
  · intro hParts
    rcases hParts with ⟨hOrderly, hBuilds⟩
    rcases h.exists_ofDefinition hOrderly hBuilds.wellNamed with
      ⟨read, hRead⟩
    have hText := Pass.builds_definition_iff.2
      ⟨read, hRead, hBuilds.of_covers (h.covers hRead).1⟩
    exact hText.of_perm hPerm.symm

------------------------------------------------------------
-- A Catalogue
------------------------------------------------------------

namespace Catalogue

/- The definition of a book. -/
def bookDefinition : TypeDefinition :=
  let first : InputValueDefinition :=
    ⟨position, none, "first", .named "Int", some (.int 2), []⟩
  ⟨position, none, "Book", [],
    .object ["Item"]
      [ declared "title" (.nonNull (.named "String")),
        declared "sequel" (.named "Item"),
        { declared "pages" (.list (.nonNull (.named "Int"))) with
          arguments := [first] }]⟩

/- A book as a program describes it. -/
def describedBook : TypeDef :=
  let first : InputValue :=
    ⟨"first", .ofName "Int" true, some (.int 2), none,
      .programmatic, []⟩
  let pages : OutputField :=
    { OutputField.ofName "pages"
        (.ofList (.ofName "Int" false) true) with
      arguments := [("first", first)] }
  .object
    ⟨.ofName "Book",
      ⟨[ ("title", .ofName "title" (.ofName "String" false)),
          ("sequel", .ofName "sequel" (.ofName "Item" true)),
          ("pages", pages)],
        ["Item"], none⟩, none⟩

/- Books may be registered when all else is declared. -/
theorem book_registers :
    describedBook.Describes bookDefinition ∧
      (document.take 1 ++ document.drop 2).Perm
        (document.eraseIdx 1 ++ []) ∧
      Pass.Builds
        (Pass.registering none (document.eraseIdx 1)
          describedBook []) := by
  have hBook : describedBook.Describes bookDefinition :=
    .object rfl rfl
      { interfaces_eq := rfl
        fields :=
          .cons ⟨rfl, rfl, rfl, .nil⟩
            (.cons ⟨rfl, rfl, rfl, .nil⟩
              (.cons ⟨rfl, rfl, rfl, .cons ⟨rfl, rfl, rfl, rfl⟩
                .nil⟩ .nil))
        nodup := by decide }
  have hOrder : (document.take 1 ++ document.drop 2).Perm
      (document.eraseIdx 1 ++ []) :=
    .of_eq rfl
  have hText : Pass.Builds
      (Pass.empty.load none
        (document.take 1 ++
          .type bookDefinition :: document.drop 2)) :=
    ⟨pass, schema, load_document, build_pass⟩
  exact
    ⟨hBook, hOrder, ((hBook.builds_iff hOrder none).1 hText).2⟩

end Catalogue

------------------------------------------------------------
-- Doubled Members
------------------------------------------------------------

/- A union with one member that is listed twice. -/
namespace Doubled

open Catalogue

/- All but the union. -/
def others : TypeSystemDocument :=
  [ .type
      ⟨position, none, "Query", [],
        .object [] [declared "found" (.named "Found")]⟩,
    .type
      ⟨position, none, "Page", [],
        .object [] [declared "number" (.named "Int")]⟩]

def definition : TypeDefinition :=
  ⟨position, none, "Found", [], .union ["Page", "Page"]⟩

/- The union as a program describes it. -/
def found : TypeDef :=
  .union ⟨.ofName "Found", ["Page", "Page"], none⟩

/- A program may register the union, but no text defines it. -/
theorem registered_not_defined :
    found.Describes definition ∧
      Pass.Builds (Pass.registering none others found []) ∧
      ¬Pass.Builds
        (Pass.empty.load none
          (others ++ [.type definition])) := by
  refine ⟨.union rfl rfl, ?_, ?_⟩
  · have hOk : (Pass.registering none others found [] >>=
        fun pass => pass.build none).isOk = true := by
      with_unfolding_all rfl
    cases hSchema : Pass.registering none others found [] >>=
        fun pass => pass.build none with
    | error error =>
        rw [hSchema] at hOk
        cases hOk
    | ok schema =>
        rcases Results.bind_eq_ok_iff.1 hSchema with
          ⟨pass, hPass, hBuild⟩
        exact ⟨pass, schema, hPass, hBuild⟩
  · rintro ⟨pass, schema, hPass, -⟩
    have hError : Pass.empty.load none
        (others ++ [.type definition]) =
          .error (.duplicateMember "Found" "Page" place place) := by
      with_unfolding_all rfl
    rw [hError] at hPass
    cases hPass

end Doubled

end GraphQL
