import GraphQL.Proofs.Schema.Protection

/-
  Schemas of documents with and without a decorator.

  A decorator may refuse a schema, but what it accepts is built
  without it as well, and everything that the documents declare
  is the same in both schemas.

  Key definitions include:
    * `Schema.Retains`

  Main declarations:
    * `TypeGraph.exists_registerAll_of_decorated`
    * `Pass.exists_assemble_of_covers`
    * `Pass.exists_undecorated`
-/

------------------------------------------------------------
-- Graphs
------------------------------------------------------------

namespace GraphQL

/- The same built-in scalar, or a type as it is declared. -/
inductive NamedType.Retains : NamedType → NamedType → Prop where
  | builtin {scalar : BuiltinScalar} :
      Retains (.builtin scalar) (.builtin scalar)
  | defined {kept given : TypeDef} :
      kept.Retains given →
      Retains (.defined kept) (.defined given)

/- What a type retains, and what validation asks of it. -/
structure NamedType.Stands (kept given : NamedType) : Prop where
  retains : kept.Retains given
  covers : kept.Covers given

theorem NamedType.stands_builtin (scalar : BuiltinScalar) :
    Stands (.builtin scalar) (.builtin scalar) :=
  ⟨.builtin, .builtin⟩

namespace TypeGraph

/- Graphs whose types stand for each other in turn. -/
def Stands (kept given : TypeGraph) : Prop :=
  List.Forall₂ NamedType.Stands kept.types given.types

variable {kept given : TypeGraph}

theorem Stands.rel_lookup
    (h : kept.Stands given)
    (name : String) :
    Option.Rel NamedType.Stands (kept.lookup name)
      (given.lookup name) :=
  rel_find?_of_forall₂
    (fun _ _ hTypes => hTypes.covers.name_eq) h name

theorem Stands.covers (h : kept.Stands given) :
    kept.Covers given :=
  ⟨fun name => optionRel_imp (fun _ _ hTypes => hTypes.covers)
    (h.rel_lookup name)⟩

/- A decorated type stands for the one that was declared. -/
theorem stands_of_apply
    {decorator : Decorator}
    {type type' : TypeDef}
    (h : decorator.apply type = .ok type')
    (hText : type.InText) :
    NamedType.Stands (.defined type') (.defined type) := by
  rcases Decorator.apply_eq_ok_iff.1 h with ⟨hCheck, -⟩
  have hRetains := Protection.retains_of_check hCheck hText
  exact ⟨.defined hRetains, .defined (hRetains.covers hText)⟩

/-
  If decorated types are registered, the types that stand in
  schema text are registered as they are.
-/
theorem exists_registerAll_of_decorated
    {decorator : Decorator}
    {draft : Draft}
    (hText : draft.InText)
    {last : TypeGraph}
    (hGraphs : kept.Stands given)
    (h : draft.foldlM (Pass.registerFinished (some decorator))
      kept = .ok last) :
    ∃ last', draft.foldlM Pass.registerEntry given = .ok last' ∧
      last.Stands last' := by
  refine Results.exists_foldlM_of_related ?_ hGraphs h
  intro entry hMem kept given next hGraphs hNext
  have hEntry := hText entry hMem
  rcases Results.bind_eq_ok_iff.1 hNext with
    ⟨type, hType, hRegister⟩
  have hApply : decorator.apply entry.type = .ok type := by
    simpa [Pass.finished, hEntry.touched] using hType
  have hStands := stands_of_apply hApply hEntry.type
  have hName := hStands.covers.name_eq
  rcases register_eq_ok_iff.1 hRegister with
    ⟨hValid, hReserved, hFree, rfl⟩
  rw [hName] at hValid hReserved
  have hFree' :
      given.lookup (NamedType.defined entry.type).name =
        none := by
    rw [← eq_none_iff_of_rel (hGraphs.rel_lookup _), ← hName]
    exact hFree
  exact
    ⟨given.add (.defined entry.type) hFree',
      register_eq_ok_iff.2 ⟨hValid, hReserved, hFree', rfl⟩,
      List.rel_append hGraphs (.cons hStands .nil)⟩

end TypeGraph

------------------------------------------------------------
-- Schemas
------------------------------------------------------------

/-
  A schema with the types that another one declares, in the same
  order, and with its root types and directives.
-/
structure Schema.Retains (kept given : Schema) : Prop where
  types : List.Forall₂ NamedType.Retains kept.types.types
    given.types.types
  roots : ∀ operation,
    (kept.roots.get? operation).map RootReference.type =
      (given.roots.get? operation).map RootReference.type
  directives_eq : kept.directives = given.directives

namespace Pass

/- A root type that is settled is one in a covered graph, too. -/
theorem exists_settleRoot_of_covers
    {graph graph' : TypeGraph}
    (h : graph.Covers graph')
    {operation : OperationKind}
    {declared? root? : Option RootReference}
    (hRoot :
      settleRoot graph operation declared? = .ok root?) :
    ∃ root?', settleRoot graph' operation declared? =
        .ok root?' ∧
      root?.map RootReference.type =
        root?'.map RootReference.type := by
  cases declared? with
  | some ref =>
      have hFound := h.lookup ref.type
      simp only [settleRoot] at hRoot ⊢
      generalize graph.lookup ref.type = found at hFound hRoot
      generalize graph'.lookup ref.type = found' at hFound ⊢
      cases hFound with
      | none => cases hRoot
      | some hTypes =>
          cases hTypes with
          | builtin => cases hRoot
          | defined hTypes =>
              cases hTypes <;> cases hRoot
              exact ⟨_, rfl, rfl⟩
  | none =>
      have hFound := h.lookup operation.name
      simp only [settleRoot] at hRoot ⊢
      generalize graph.lookup operation.name = found
        at hFound hRoot
      generalize graph'.lookup operation.name = found'
        at hFound ⊢
      cases hFound with
      | none =>
          cases hRoot
          exact ⟨_, rfl, rfl⟩
      | some hTypes =>
          cases hTypes with
          | builtin =>
              cases hRoot
              exact ⟨_, rfl, rfl⟩
          | defined hTypes =>
              cases hTypes <;> cases hRoot <;>
                exact ⟨_, rfl, rfl⟩

/- A graph that is covered has a schema with the same roots. -/
theorem exists_assemble_of_covers
    {pass pass' : Pass}
    {graph graph' : TypeGraph}
    {schema : Schema}
    (hGraphs : graph.Covers graph')
    (hRoots : pass.roots = pass'.roots)
    (h : pass.assemble graph = .ok schema) :
    ∃ schema', pass'.assemble graph' = .ok schema' ∧
      ∀ operation,
        (schema.roots.get? operation).map RootReference.type =
          (schema'.roots.get? operation).map
            RootReference.type := by
  rcases assemble_eq_ok_iff.1 h with ⟨-, -, hValid, hSettled⟩
  rw [hRoots] at hSettled
  have hSettled' := fun operation =>
    exists_settleRoot_of_covers hGraphs (hSettled operation)
  rcases hSettled' .query with ⟨query?, hQuery, hQueries⟩
  rcases hSettled' .mutation with
    ⟨mutation?, hMutation, hMutations⟩
  rcases hSettled' .subscription with
    ⟨subscription?, hSubscription, hSubscriptions⟩
  cases query? with
  | none => cases hQueries
  | some query =>
      refine
        ⟨⟨graph', pass'.allDirectives, query, mutation?,
            subscription?⟩,
          assemble_eq_ok_iff.2
            ⟨rfl, rfl, hGraphs.validate_eq_ok hValid,
              fun operation => ?_⟩,
          fun operation => ?_⟩
      · cases operation <;> assumption
      · cases operation <;> assumption

/- A schema of decorated types is one of the types declared. -/
theorem exists_assemble_of_stands
    {pass : Pass}
    {graph graph' : TypeGraph}
    {decorated : Schema}
    (hGraphs : graph.Stands graph')
    (h : pass.assemble graph = .ok decorated) :
    ∃ plain, pass.assemble graph' = .ok plain ∧
      decorated.Retains plain := by
  rcases exists_assemble_of_covers hGraphs.covers rfl h with
    ⟨plain, hPlain, hRoots⟩
  rcases assemble_eq_ok_iff.1 h with ⟨rfl, hDirectives, -⟩
  rcases assemble_eq_ok_iff.1 hPlain with ⟨rfl, hDirectives', -⟩
  exact
    ⟨plain, hPlain,
      hGraphs.imp fun _ _ hTypes => hTypes.retains, hRoots,
      hDirectives.trans hDirectives'.symm⟩

/-
  What is built of documents with a decorator is built without
  it as well, and retains whatever the documents declare.
-/
theorem exists_undecorated
    {pass : Pass}
    {decorator : Decorator}
    {decorated : Schema}
    (hReads : Pass.empty.Reads pass)
    (hBuild : pass.build (some decorator) = .ok decorated) :
    ∃ plain, pass.build none = .ok plain ∧
      decorated.Retains plain := by
  rcases build_decorated_eq_ok_iff.1 hBuild with
    ⟨draft, graph, hDraft, -, hGraph, hAssemble⟩
  have hText := hReads.inText.settleKinds hDraft
  have hBuiltin : TypeGraph.builtin.Stands .builtin :=
    List.forall₂_map_left_iff.2
      (List.forall₂_map_right_iff.2
        (List.forall₂_same.2 fun scalar _ =>
          NamedType.stands_builtin scalar))
  rcases TypeGraph.exists_registerAll_of_decorated hText hBuiltin
    hGraph with ⟨graph', hGraph', hGraphs⟩
  rcases exists_assemble_of_stands hGraphs hAssemble with
    ⟨plain, hPlain, hRetains⟩
  exact
    ⟨plain, build_eq_ok_iff.2 ⟨draft, graph', hDraft, hGraph',
      hPlain⟩, hRetains⟩

end Pass

------------------------------------------------------------
-- A Catalogue
------------------------------------------------------------

namespace Catalogue

/- A resolver for the items of the catalogue. -/
def resolvers : Decorator :=
  (ResolverMap.resolver [] "Query" "items" (.ofKey 1)).decorator

/- The catalogue is declared the same without its resolver. -/
theorem undecorated :
    ∃ decorated plain,
      pass.build (some resolvers) = .ok decorated ∧
        pass.build none = .ok plain ∧
        decorated.Retains plain := by
  have hOk : (pass.build (some resolvers)).isOk = true := by
    with_unfolding_all rfl
  have hReads : Pass.empty.Reads pass :=
    .load .start load_document
  cases hDecorated : pass.build (some resolvers) with
  | error error =>
      rw [hDecorated] at hOk
      cases hOk
  | ok decorated =>
      rcases Pass.exists_undecorated hReads hDecorated with
        ⟨plain, hPlain, hRetains⟩
      exact ⟨decorated, plain, rfl, hPlain, hRetains⟩

end Catalogue

end GraphQL
