import GraphQL.Proofs.Schema.Closed
import GraphQL.Proofs.Schema.DefinitionOrder
import GraphQL.Proofs.Schema.SchemaText

/-
  Root types and how they come to be.

  A root type is named by a schema block, or an object of the
  usual name is taken when a pass ends. A pass compares what
  its schema blocks name and nothing else. Two kinds of
  operations thus share a root type exactly if a schema block
  gives one of them the usual name of another one that no
  schema block names.

  Key definitions include:
    * `Schema.DistinctRoots`
    * `Schema.DeclaredBy`: the roots that schema blocks named
    * `Roots.SparesDefaults`

  Main declarations:
    * `Pass.Grows.keeps_roots`
    * `Schema.DeclaredBy.distinctRoots_iff_sparesDefaults`
    * `Catalogue.accepted_with_shared_root`
-/

------------------------------------------------------------
-- Distinct Roots
------------------------------------------------------------

namespace GraphQL

namespace Roots

variable {roots : Roots}

theorem DistinctFor.symm
    {operation operation' : OperationKind}
    (h : roots.DistinctFor operation operation') :
    roots.DistinctFor operation' operation :=
  fun ref ref' hRef hRef' hSame =>
    h ref' ref hRef' hRef hSame.symm

/- Roots are distinct if any two of them are. -/
theorem distinct_iff :
    roots.Distinct ↔ ∀ operation operation',
      operation ≠ operation' →
      roots.DistinctFor operation operation' := by
  constructor
  · intro h operation operation' hNe
    cases operation with
    | query =>
        cases operation' with
        | query => exact absurd rfl hNe
        | mutation => exact h.queryMutation
        | subscription => exact h.querySubscription
    | mutation =>
        cases operation' with
        | query => exact h.queryMutation.symm
        | mutation => exact absurd rfl hNe
        | subscription => exact h.mutationSubscription
    | subscription =>
        cases operation' with
        | query => exact h.querySubscription.symm
        | mutation => exact h.mutationSubscription.symm
        | subscription => exact absurd rfl hNe
  · intro h
    exact
      ⟨h _ _ (by simp), h _ _ (by simp), h _ _ (by simp)⟩

/-
  No root type has the usual name of a root that is not
  declared.
-/
def SparesDefaults (declared : Roots) : Prop :=
  ∀ operation other ref,
    declared.get? operation = some ref →
    declared.get? other = none →
    ref.type ≠ other.name

end Roots

/- Kinds of operations are known by their usual names. -/
theorem OperationKind.eq_of_name_eq
    {operation operation' : OperationKind}
    (h : operation.name = operation'.name) :
    operation = operation' := by
  cases operation <;> cases operation' <;>
    simp_all [OperationKind.name]

/- The root types that are present are distinct objects. -/
def Schema.DistinctRoots (schema : Schema) : Prop :=
  ∀ operation operation' type,
    operation ≠ operation' →
    schema.rootType? operation = some type →
    schema.rootType? operation' ≠ some type

/- Types are distinct objects if their names are distinct. -/
theorem Schema.Closed.distinctRoots_iff_distinct
    {schema : Schema}
    (h : schema.Closed) :
    schema.DistinctRoots ↔ schema.roots.Distinct := by
  rw [Roots.distinct_iff]
  constructor
  · intro hDistinct operation operation' hNe ref ref' hRef hRef'
      hSame
    rcases h.roots operation ref hRef with ⟨type, hType, -⟩
    apply hDistinct operation operation' type hNe hType
    rw [← hType]
    simp [rootType?, hRef, hRef', hSame]
  · intro hDistinct operation operation' type hNe hType hType'
    rcases Option.bind_eq_some_iff.1 hType with
      ⟨ref, hRef, -⟩
    rcases Option.bind_eq_some_iff.1 hType' with
      ⟨ref', hRef', -⟩
    rcases h.roots operation ref hRef with
      ⟨found, hFound, hName⟩
    rcases h.roots operation' ref' hRef' with
      ⟨found', hFound', hName'⟩
    have hSame : found = type :=
      Option.some.inj (hFound.symm.trans hType)
    have hSame' : found' = type :=
      Option.some.inj (hFound'.symm.trans hType')
    apply hDistinct operation operation' hNe ref ref' hRef hRef'
    rw [← hName, ← hName', hSame, hSame']

------------------------------------------------------------
-- Passes
------------------------------------------------------------

namespace Pass

variable {start pass next : Pass}

/- Schema blocks have no place in an extension. -/
theorem extending_of_declareRoots
    {location : SourceLocation}
    {block : SchemaBlock}
    (h : pass.declareRoots location block = .ok next) :
    pass.extending = false := by
  unfold declareRoots at h
  cases hExtending : pass.extending with
  | false => rfl
  | true =>
      rw [if_pos hExtending] at h
      cases h

/-
  What schema blocks keep of the roots of a pass is kept by
  all that the pass takes.
-/
theorem Grows.keeps_roots
    (Property : Bool → Roots → Prop)
    (hDeclare : ∀ {pass next location block},
      Pass.declareRoots pass location block = .ok next →
      Property pass.extending pass.roots →
      Property next.extending next.roots)
    (h : Grows start pass)
    (hStart : Property start.extending start.roots) :
    Property pass.extending pass.roots := by
  have hTake : ∀ {file} (pass : Pass) definition next,
      take file pass definition = .ok next →
      Property pass.extending pass.roots →
      Property next.extending next.roots := by
    intro file pass definition next hNext hPass
    cases definition with
    | schema block => exact hDeclare hNext hPass
    | _ =>
        rcases (take_eq_ok_iff (by simp)).1 hNext with
          ⟨stage, directives, -, -, rfl⟩
        exact hPass
  induction h with
  | start => exact hStart
  | load _ hLoad ih => exact Results.foldlM_keeps hTake hLoad ih
  | loadText _ hText ih =>
      rcases exists_load_of_loadText hText with
        ⟨_, _, _, hLoad⟩
      exact Results.foldlM_keeps hTake hLoad ih
  | define _ hDefine ih =>
      rcases Results.bind_eq_ok_iff.1 hDefine with
        ⟨draft, -, hNext⟩
      cases hNext
      exact ih

/- Schema blocks name distinct root types. -/
theorem Grows.distinct_roots (h : Grows .empty pass) :
    pass.roots.Distinct := by
  refine
    (keeps_roots
      (fun extending roots => extending = false ∧ roots.Distinct)
      ?_ h ⟨rfl, ?_⟩).2
  · rintro pass next location block hNext ⟨hExtending, -⟩
    rcases (declareRoots_eq_ok_iff hExtending).1 hNext with
      ⟨-, hDistinct, rfl⟩
    exact ⟨hExtending, hDistinct⟩
  · constructor <;> rintro ref ref' ⟨⟩

/- An extension starts with the roots of its base. -/
theorem Grows.roots_eq
    {base : Schema}
    (h : Grows (.ofSchema base) pass) :
    pass.roots = base.roots := by
  refine
    (keeps_roots
      (fun extending roots =>
        extending = true ∧ roots = base.roots)
      ?_ h ⟨rfl, rfl⟩).2
  rintro pass next location block hNext ⟨hExtending, -⟩
  have hFresh := extending_of_declareRoots hNext
  rw [hExtending] at hFresh
  cases hFresh

/- The roots of a schema are those of its pass, settled. -/
theorem settleRoot_of_build
    {decorator? : Option Decorator}
    {schema : Schema}
    (h : pass.build decorator? = .ok schema)
    (operation : OperationKind) :
    settleRoot schema.types operation
        (pass.roots.get? operation) =
      .ok (schema.roots.get? operation) := by
  rcases exists_assemble_of_build h with ⟨graph, hAssemble⟩
  rcases assemble_eq_ok_iff.1 hAssemble with ⟨rfl, -, -, hRoots⟩
  exact hRoots operation

/- A root that is declared is settled as it is. -/
theorem eq_of_settleRoot
    {graph : TypeGraph}
    {operation : OperationKind}
    {ref : RootReference}
    {settled? : Option RootReference}
    (h : settleRoot graph operation (some ref) = .ok settled?) :
    settled? = some ref := by
  simp only [settleRoot] at h
  split at h
  · cases h
    rfl
  · cases h

/-
  A root that is not declared is the object of the usual name,
  if there is one.
-/
structure Usual
    (graph : TypeGraph)
    (operation : OperationKind)
    (settled? : Option RootReference) : Prop where
  name : ∀ ref, settled? = some ref →
    ref.type = operation.name
  none : settled? = none → ∀ type,
    graph.lookup operation.name ≠
      some (.defined (.object type))

/- Settling gives a root its usual name or keeps it. -/
theorem usual_of_settleRoot
    {graph : TypeGraph}
    {operation : OperationKind}
    {declared? settled? : Option RootReference}
    (h : settleRoot graph operation declared? = .ok settled?)
    (hDeclared : ∀ ref, declared? = some ref →
      ref.type = operation.name) :
    Usual graph operation settled? := by
  cases declared? with
  | some ref =>
      rw [eq_of_settleRoot h]
      exact ⟨hDeclared, by simp⟩
  | none =>
      simp only [settleRoot] at h
      split at h
      · cases h
        exact ⟨by simp, by simp⟩
      · next hOther =>
          cases h
          exact ⟨by simp, fun _ => hOther⟩

end Pass

------------------------------------------------------------
-- Schemas
------------------------------------------------------------

namespace Schema

/-
  A schema that was built, or extends one that was, with the
  roots that the schema blocks of its first pass named.
-/
inductive DeclaredBy (declared : Roots) : Schema → Prop where
  | build {pass : Pass} {decorator? : Option Decorator}
      {schema : Schema} :
      Pass.Grows .empty pass →
      pass.roots = declared →
      pass.build decorator? = .ok schema →
      DeclaredBy declared schema
  | extend {base : Schema} {pass : Pass}
      {decorator? : Option Decorator} {schema : Schema} :
      DeclaredBy declared base →
      Pass.Grows (.ofSchema base) pass →
      (base.finishExtension pass decorator?).result =
        .ok schema →
      DeclaredBy declared schema

variable {schema : Schema} {declared : Roots}
variable {operation : OperationKind} {ref : RootReference}

/- Every schema that is built is declared by some roots. -/
theorem Built.exists_declaredBy (h : schema.Built) :
    ∃ declared, schema.DeclaredBy declared := by
  induction h with
  | build hGrows hBuild => exact ⟨_, .build hGrows rfl hBuild⟩
  | extend _ hGrows hFinish ih =>
      rcases ih with ⟨declared, hBase⟩
      exact ⟨declared, .extend hBase hGrows hFinish⟩

namespace DeclaredBy

theorem built (h : schema.DeclaredBy declared) :
    schema.Built := by
  induction h with
  | build hGrows _ hBuild => exact .build hGrows hBuild
  | extend _ hGrows hFinish ih => exact .extend ih hGrows hFinish

theorem distinct (h : schema.DeclaredBy declared) :
    declared.Distinct := by
  induction h with
  | build hGrows hRoots => exact hRoots ▸ hGrows.distinct_roots
  | extend _ _ _ ih => exact ih

/- A schema block decides on a root once and for all. -/
theorem get?_eq_some
    (h : schema.DeclaredBy declared)
    (hRef : declared.get? operation = some ref) :
    schema.roots.get? operation = some ref := by
  induction h with
  | build _ hRoots hBuild =>
      have hRoot := Pass.settleRoot_of_build hBuild operation
      rw [hRoots, hRef] at hRoot
      exact Pass.eq_of_settleRoot hRoot
  | extend _ hGrows hFinish ih =>
      rw [result_finishExtension] at hFinish
      have hRoot := Pass.settleRoot_of_build hFinish operation
      rw [hGrows.roots_eq, ih] at hRoot
      exact Pass.eq_of_settleRoot hRoot

/-
  A root that no schema block names is the object of the usual
  name, from the first pass on that knows such an object.
-/
theorem usual
    (h : schema.DeclaredBy declared)
    (hNone : declared.get? operation = none) :
    Pass.Usual schema.types operation
      (schema.roots.get? operation) := by
  induction h with
  | build _ hRoots hBuild =>
      apply Pass.usual_of_settleRoot
        (Pass.settleRoot_of_build hBuild operation)
      rw [hRoots, hNone]
      simp
  | extend _ hGrows hFinish ih =>
      rw [result_finishExtension] at hFinish
      apply Pass.usual_of_settleRoot
        (Pass.settleRoot_of_build hFinish operation)
      rw [hGrows.roots_eq]
      exact ih.name

/- A root is one that was declared, or has the usual name. -/
theorem declared_or_usual
    (h : schema.DeclaredBy declared)
    (hRef : schema.roots.get? operation = some ref) :
    declared.get? operation = some ref ∨
      declared.get? operation = none ∧
        ref.type = operation.name := by
  cases hDeclared : declared.get? operation with
  | none => exact .inr ⟨rfl, (h.usual hDeclared).name ref hRef⟩
  | some first =>
      have hFirst := h.get?_eq_some hDeclared
      exact .inl (hFirst.symm.trans hRef)

/-
  An object of a usual name that is declared a root is one
  root more if that name is not declared.
-/
theorem sparesDefaults_of_distinct
    (h : schema.DeclaredBy declared)
    (hDistinct : schema.roots.Distinct) :
    declared.SparesDefaults := by
  intro operation other ref hRef hOther hSame
  have hRoot := h.get?_eq_some hRef
  rcases h.built.closed.roots operation ref hRoot with
    ⟨type, hType, -⟩
  simp only [rootType?, hRoot, Option.bind_some] at hType
  rcases Option.bind_eq_some_iff.1 hType with
    ⟨found, hLookup, hObject⟩
  rw [NamedType.eq_of_object?_eq_some hObject, hSame] at hLookup
  have hUsual := h.usual hOther
  cases hFound : schema.roots.get? other with
  | none => exact hUsual.none hFound type hLookup
  | some ref' =>
      have hNe : operation ≠ other := by
        rintro rfl
        rw [hRef] at hOther
        cases hOther
      exact Roots.distinct_iff.1 hDistinct operation other hNe
        ref ref' hRoot hFound
        (hSame.trans (hUsual.name ref' hFound).symm)

theorem distinct_of_sparesDefaults
    (h : schema.DeclaredBy declared)
    (hSpares : declared.SparesDefaults) :
    schema.roots.Distinct := by
  apply Roots.distinct_iff.2
  intro operation operation' hNe ref ref' hRef hRef' hSame
  rcases h.declared_or_usual hRef with
    hFirst | ⟨hFirst, hName⟩
  · rcases h.declared_or_usual hRef' with
      hSecond | ⟨hSecond, hName'⟩
    · exact Roots.distinct_iff.1 h.distinct operation operation'
        hNe ref ref' hFirst hSecond hSame
    · exact hSpares operation operation' ref hFirst hSecond
        (hSame.trans hName')
  · rcases h.declared_or_usual hRef' with
      hSecond | ⟨-, hName'⟩
    · exact hSpares operation' operation ref' hSecond hFirst
        (hSame.symm.trans hName)
    · exact hNe
        (OperationKind.eq_of_name_eq
          (hName.symm.trans (hSame.trans hName')))

/-
  Roots are objects, and those that schema blocks name are
  distinct. All are distinct exactly if no schema block takes
  the usual name of a root that is left open: the object of
  that name is made that root as well.
-/
theorem distinctRoots_iff_sparesDefaults
    (h : schema.DeclaredBy declared) :
    (∀ operation ref,
      schema.roots.get? operation = some ref →
      ∃ type, schema.rootType? operation = some type ∧
        type.name = ref.type) ∧
    declared.Distinct ∧
    (schema.DistinctRoots ↔ declared.SparesDefaults) := by
  have hClosed := h.built.closed
  refine ⟨hClosed.roots, h.distinct, ?_⟩
  rw [hClosed.distinctRoots_iff_distinct]
  exact
    ⟨h.sparesDefaults_of_distinct,
      h.distinct_of_sparesDefaults⟩

end DeclaredBy

end Schema

------------------------------------------------------------
-- A Catalogue
------------------------------------------------------------

namespace Catalogue

/- A block that names the root of queries alone. -/
def queries (type : String) : TypeSystemDefinition :=
  .schema ⟨position, [], some type, none, none⟩

/- An object of a usual name. -/
def lending : TypeSystemDefinition :=
  .type
    ⟨position, none, "Mutation", [],
      .object [] [declared "lend" (.named "Boolean")]⟩

def mutation : ObjectType :=
  ⟨header "Mutation",
    ⟨[field "lend" (.named "Boolean" true place)], [], none⟩,
    none⟩

/- The catalogue, from which books are lent. -/
def lendingSchema : Schema where
  types :=
    { types := schema.types.types ++ [.defined (.object mutation)]
      nodup_names := by decide }
  directives := schema.directives
  query := schema.query
  mutation := some ⟨"Mutation", place⟩
  subscription := none

/- The root of queries, as the block names it. -/
def queryOnly : Roots :=
  ⟨some ⟨"Query", place⟩, none, none⟩

theorem lendingSchema_declaredBy :
    lendingSchema.DeclaredBy queryOnly := by
  have hLoad :
      Pass.empty.load none (document ++ [queries "Query"]) =
        .ok { pass with roots := queryOnly } := by
    rfl
  have hBase :
      { pass with roots := queryOnly }.build none =
        .ok schema := by
    with_unfolding_all rfl
  let next : Pass :=
    { Pass.ofSchema schema with
      draft := (Pass.ofSchema schema).draft ++
        [⟨.object mutation, true⟩] }
  have hNext :
      (Pass.ofSchema schema).load none [lending] = .ok next := by
    rfl
  have hExtended :
      (schema.finishExtension next none).result =
        .ok lendingSchema := by
    with_unfolding_all rfl
  exact
    .extend (.build (.load .start hLoad) rfl hBase)
      (.load .start hNext) hExtended

/- A mutation that comes later is a root of its own. -/
theorem lendingSchema_distinctRoots :
    lendingSchema.DeclaredBy queryOnly ∧
      lendingSchema.rootType? .mutation = some mutation ∧
      lendingSchema.DistinctRoots := by
  refine ⟨lendingSchema_declaredBy, by rfl, ?_⟩
  apply (Schema.DeclaredBy.distinctRoots_iff_sparesDefaults
    lendingSchema_declaredBy).2.2.2
  intro operation other ref hRef hOther
  cases operation <;> cases hRef
  cases other with
  | query => cases hOther
  | mutation => decide
  | subscription => decide

/-
  A schema block that names the mutation as the root of
  queries is accepted, and both roots are the same type.
-/
theorem accepted_with_shared_root :
    ∃ pass schema,
      Pass.empty.load none [queries "Mutation", lending] =
          .ok pass ∧
        pass.build none = .ok schema ∧
        schema.rootType? .query = some mutation ∧
        schema.rootType? .mutation = some mutation ∧
        ¬ schema.DistinctRoots := by
  let built : Except BuildError Schema :=
    Pass.empty.load none [queries "Mutation", lending] >>=
      fun pass => pass.build none
  have hFound :
      built.map (fun schema =>
          (schema.rootType? .query, schema.rootType? .mutation)) =
        .ok (some mutation, some mutation) := by
    with_unfolding_all rfl
  cases hSchema : built with
  | error error =>
      rw [hSchema] at hFound
      cases hFound
  | ok schema =>
      rw [hSchema] at hFound
      rcases Prod.mk.inj (Except.ok.inj hFound) with
        ⟨hQuery, hMutation⟩
      rcases Results.bind_eq_ok_iff.1 hSchema with
        ⟨pass, hLoad, hBuild⟩
      refine
        ⟨pass, schema, hLoad, hBuild, hQuery, hMutation, ?_⟩
      intro hDistinct
      exact hDistinct .query .mutation mutation (by simp) hQuery
        hMutation

end Catalogue

end GraphQL
