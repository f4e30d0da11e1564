import GraphQL.Proofs.Schema.LocalFailures
import GraphQL.Proofs.Schema.RootTypes
import GraphQL.Proofs.Schema.UndefinedNames

/-
  The rule of known type names and the building of schemas.

  The rule goes by the names that a document defines, before
  anything is built. It agrees with the schema: a schema that
  is built has a type for every name, and if all names are
  known, none is reported as undefined.

  Key definitions include:
    * `Schema.declare`: build a document, or extend a base by it
    * `KnownTypeNames.Plain`, `KnownTypeNames.Defines`
    * `BuildError.Reports`

  Main declarations:
    * `Schema.contains_iff_defines`
    * `KnownTypeNames.agrees_with_declare`
-/

------------------------------------------------------------
-- Documents
------------------------------------------------------------

namespace GraphQL

/- The pass that builds a schema, or extends a base. -/
def Pass.initial : Option Schema → Pass
| none => .empty
| some base => .ofSchema base

/- Build a document, or extend a base by it. -/
def Schema.declare
    (base? : Option Schema)
    (file : Option String)
    (document : TypeSystemDocument) :
    Except BuildError Schema := do
  let pass ← (Pass.initial base?).load file document
  match base? with
  | none => pass.build none
  | some base => (base.finishExtension pass none).result

/- In either case the pass is finished without a decorator. -/
theorem Schema.declare_eq
    (base? : Option Schema)
    (file : Option String)
    (document : TypeSystemDocument) :
    declare base? file document =
      ((Pass.initial base?).load file document >>= fun pass =>
        pass.build none) := by
  unfold declare
  congr 1
  funext pass
  cases base? with
  | none => rfl
  | some base => exact result_finishExtension base pass none

namespace KnownTypeNames

/-
  Documents that refer to no type that describes schemas. Their
  directives have no arguments, and their fields have arguments
  of distinct names.
-/
structure Plain (document : TypeSystemDocument) : Prop where
  references : ∀ ref ∈ typeSystemReferences document,
    ref.name ∉ introspectionNames
  directives : ∀ definition,
    .directive definition ∈ document →
    definition.arguments = []
  types : ∀ definition, .type definition ∈ document →
    definition.content.NamesArguments
  extensions : ∀ extension, .extension extension ∈ document →
    extension.content.NamesArguments

/-
  A name is that of a built-in scalar, of a type of the base
  or of one that the document defines.
-/
def Defines
    (base? : Option Schema)
    (document : TypeSystemDocument)
    (name : String) : Prop :=
  name ∈ BuiltinScalar.all.map BuiltinScalar.name ∨
    (∃ base ∈ base?, base.types.contains name = true) ∨
    name ∈ definedNames document

variable {base? : Option Schema} {document : TypeSystemDocument}
variable {name : String}

/- Of other names than those, only introspection is known. -/
theorem isKnown_iff :
    isKnown base? document name = true ↔
      Defines base? document name ∨
        name ∈ introspectionNames := by
  simp only [isKnown, standardNames, Defines, Bool.or_eq_true,
    List.contains_iff_mem, List.mem_append, Option.any_eq_true,
    Option.mem_def]
  simp only [or_assoc, or_comm]

/- No unknown name is found if all references are known. -/
theorem checkTypeSystem_eq_nil_iff :
    checkTypeSystem base? document = [] ↔
      ∀ definition ∈ document, ∀ name ∈ definition.mentions,
        isKnown base? document name = true := by
  simp only [checkTypeSystem, List.map_eq_nil_iff,
    List.filter_eq_nil_iff, typeSystemReferences,
    List.mem_flatMap, TypeSystemDefinition.mentions,
    List.mem_map, Bool.not_eq_true', Bool.not_eq_false]
  constructor
  · rintro h definition hDefinition _ ⟨ref, hRef, rfl⟩
    exact h ref ⟨definition, hDefinition, hRef⟩
  · rintro h ref ⟨definition, hDefinition, hRef⟩
    exact h definition hDefinition _ ⟨ref, hRef, rfl⟩

/- Names that plain documents mention are others. -/
theorem Plain.not_mem_introspectionNames
    (h : Plain document)
    {definition : TypeSystemDefinition}
    (hDefinition : definition ∈ document)
    (hName : name ∈ definition.mentions) :
    name ∉ introspectionNames := by
  rcases List.mem_map.1 hName with ⟨ref, hRef, rfl⟩
  exact h.references ref
    (List.mem_flatMap.2 ⟨definition, hDefinition, hRef⟩)

end KnownTypeNames

------------------------------------------------------------
-- Root Types
------------------------------------------------------------

/- A schema block mentions the roots that it names. -/
theorem SchemaBlock.mem_mentions_iff
    {block : SchemaBlock}
    {name : String}
    (location : SourceLocation) :
    name ∈ (TypeSystemDefinition.schema block).mentions ↔
      ∃ operation ref,
        (block.roots location).get? operation = some ref ∧
          ref.type = name := by
  have hNames : (TypeSystemDefinition.schema block).mentions =
      block.query.toList ++ block.mutation.toList ++
        block.subscription.toList :=
    KnownTypeNames.names_namesAt _ _
  simp only [hNames, SchemaBlock.roots, Roots.get?_fill,
    Roots.get?_only, List.mem_append, Option.mem_toList]
  constructor
  · rintro ((hQuery | hMutation) | hSubscription)
    · exact ⟨.query, ⟨name, location⟩, by simp_all, rfl⟩
    · exact ⟨.mutation, ⟨name, location⟩, by simp_all, rfl⟩
    · exact ⟨.subscription, ⟨name, location⟩, by simp_all, rfl⟩
  · rintro ⟨operation, ref, hRef, rfl⟩
    cases operation <;> simp at hRef <;>
      rcases hRef with ⟨type, hType, rfl⟩ <;> simp [hType]

/- A root of a closed schema is one of its types. -/
theorem Schema.Closed.contains_root
    {schema : Schema}
    (h : schema.Closed)
    {operation : OperationKind}
    {ref : RootReference}
    (hRef : schema.roots.get? operation = some ref) :
    schema.types.contains ref.type = true := by
  rcases h.roots operation ref hRef with ⟨type, hType, -⟩
  simp only [rootType?, hRef, Option.bind_some] at hType
  rcases Option.bind_eq_some_iff.1 hType with
    ⟨found, hLookup, -⟩
  rw [lookup] at hLookup
  rw [TypeGraph.contains, hLookup, Option.isSome_some]

namespace Pass

variable {pass next : Pass} {file : Option String}
variable {definition : TypeSystemDefinition}
variable {operation : OperationKind} {ref : RootReference}

/- Some root has a name. -/
def HasRoot (name : String) (pass : Pass) : Prop :=
  ∃ operation ref,
    pass.roots.get? operation = some ref ∧ ref.type = name

/- The names of all roots are known. -/
def RootsWithin (Known : String → Prop) (pass : Pass) : Prop :=
  ∀ operation ref,
    pass.roots.get? operation = some ref → Known ref.type

/- Schema blocks add to the roots, other definitions do not. -/
theorem roots_of_take
    (h : take file pass definition = .ok next) :
    (∃ block, definition = .schema block ∧
      next.roots = pass.roots.fill
        (block.roots (.ofSchema file block.position))) ∨
      (∀ block, definition ≠ .schema block) ∧
        next.roots = pass.roots := by
  cases definition with
  | schema block =>
      have hExtending := extending_of_declareRoots h
      rcases (declareRoots_eq_ok_iff hExtending).1 h with
        ⟨-, -, rfl⟩
      exact .inl ⟨block, rfl, rfl⟩
  | _ =>
      rcases (take_eq_ok_iff (by simp)).1 h with
        ⟨stage, directives, -, -, rfl⟩
      exact .inr ⟨by simp, rfl⟩

/- Roots stay as they are. -/
theorem HasRoot.take
    {name : String}
    (hRoot : pass.HasRoot name)
    (h : take file pass definition = .ok next) :
    next.HasRoot name := by
  rcases hRoot with ⟨operation, ref, hRef, hName⟩
  refine ⟨operation, ref, ?_, hName⟩
  rcases roots_of_take h with ⟨block, -, hRoots⟩ | ⟨-, hRoots⟩
  · rw [hRoots, Roots.get?_fill, hRef, Option.some_or]
  · rw [hRoots, hRef]

/- New ones are mentioned. -/
theorem RootsWithin.take
    {Known : String → Prop}
    (hWithin : pass.RootsWithin Known)
    (hKnown : ∀ name ∈ definition.mentions, Known name)
    (h : take file pass definition = .ok next) :
    next.RootsWithin Known := by
  intro operation ref hRef
  rcases roots_of_take h with
    ⟨block, rfl, hRoots⟩ | ⟨-, hRoots⟩
  · rw [hRoots, Roots.get?_fill, Option.or_eq_some_iff] at hRef
    rcases hRef with hBefore | ⟨-, hBlock⟩
    · exact hWithin operation ref hBefore
    · exact hKnown _
        ((SchemaBlock.mem_mentions_iff _).2
          ⟨operation, ref, hBlock, rfl⟩)
  · exact hWithin operation ref (hRoots ▸ hRef)

/- What a block mentions is the name of a root. -/
theorem hasRoot_of_take
    {block : SchemaBlock}
    {name : String}
    (h : take file pass (.schema block) = .ok next)
    (hName : name ∈
      (TypeSystemDefinition.schema block).mentions) :
    next.HasRoot name := by
  have hExtending := extending_of_declareRoots h
  rcases (declareRoots_eq_ok_iff hExtending).1 h with
    ⟨hApart, -, rfl⟩
  rcases (SchemaBlock.mem_mentions_iff _).1 hName with
    ⟨operation, ref, hRef, rfl⟩
  refine ⟨operation, ref, ?_, rfl⟩
  rcases hApart operation with hNone | hNone
  · rw [Roots.get?_fill, hNone, hRef, Option.none_or]
  · rw [hRef] at hNone
    cases hNone

end Pass

------------------------------------------------------------
-- Graphs
------------------------------------------------------------

/- The types of a graph bear the names of its draft. -/
theorem TypeGraph.contains_iff_of_registerAll
    {draft : Draft}
    {graph : TypeGraph}
    {name : String}
    (h : draft.foldlM Pass.registerEntry .builtin = .ok graph) :
    graph.contains name = true ↔
      name ∈ BuiltinScalar.all.map BuiltinScalar.name ∨
        name ∈ draft.names := by
  have hNames : graph.types.map NamedType.name =
      BuiltinScalar.all.map BuiltinScalar.name ++
        draft.names := by
    rw [types_of_registerAll h, List.map_append, List.map_map]
    rfl
  rw [contains, Option.isSome_iff_ne_none, Ne,
    lookup_eq_none_iff, not_not, hNames, List.mem_append]

/- The types that a base carries over are its own. -/
theorem Draft.mem_names_ofGraph
    {graph : TypeGraph}
    {name : String} :
    name ∈ (Draft.ofGraph graph).names ↔
      ∃ type, .defined type ∈ graph.types ∧
        type.name = name := by
  simp only [names, ofGraph, List.mem_map, List.mem_filterMap]
  constructor
  · rintro ⟨entry, ⟨type, hType, hEntry⟩, rfl⟩
    cases type with
    | builtin scalar => cases hEntry
    | defined type =>
        cases hEntry
        exact ⟨type, hType, rfl⟩
  · rintro ⟨type, hType, rfl⟩
    exact ⟨⟨type, false⟩, ⟨_, hType, rfl⟩, rfl⟩

/- What a draft mentions is mentioned in its graph. -/
theorem TypeGraph.mentions_of_registerAll
    {draft : Draft}
    {graph : TypeGraph}
    {name : String}
    (h : draft.foldlM Pass.registerEntry .builtin = .ok graph) :
    graph.Mentions name ↔
      ∃ entry ∈ draft, name ∈ entry.type.mentions := by
  unfold Mentions
  rw [types_of_registerAll h]
  constructor
  · rintro ⟨type, hType, hName⟩
    rcases List.mem_append.1 hType with hBuiltin | hDefined
    · rcases List.mem_map.1 hBuiltin with ⟨scalar, -, rfl⟩
      cases hName
    · rcases List.mem_map.1 hDefined with ⟨entry, hEntry, rfl⟩
      exact ⟨entry, hEntry, hName⟩
  · rintro ⟨entry, hEntry, hName⟩
    exact
      ⟨_, List.mem_append_right _ (List.mem_map_of_mem hEntry),
        hName⟩

------------------------------------------------------------
-- Passes
------------------------------------------------------------

namespace Pass

open KnownTypeNames (Defines definedNames)

variable {base? : Option Schema} {file : Option String}
variable {document : TypeSystemDocument}
variable {pass : Pass} {draft : Draft} {graph : TypeGraph}
variable {name : String}

/- The types of a pass are those that its document defines. -/
theorem contains_iff_defines
    (hLoad : (initial base?).load file document = .ok pass)
    (hDraft : Draft.settleKinds pass.stage = .ok draft)
    (hGraph : draft.foldlM registerEntry .builtin = .ok graph) :
    graph.contains name = true ↔
      Defines base? document name := by
  have hStart : name ∈ (initial base?).draft.names ↔
      ∃ base ∈ base?, ∃ type,
        .defined type ∈ base.types.types ∧
          type.name = name := by
    cases base? with
    | none => simp [initial, empty, Draft.names]
    | some base =>
        simp only [initial, ofSchema, Draft.mem_names_ofGraph,
          Option.mem_some_iff, exists_eq_left']
  have hNames : draft.names =
      (initial base?).draft.names ++ definedNames document :=
    (Draft.names_of_settleKinds hDraft).trans
      (Draft.names_of_takeStages (of_load hLoad).1)
  rw [TypeGraph.contains_iff_of_registerAll hGraph, hNames,
    List.mem_append, hStart, Defines]
  constructor
  · rintro (hBuiltin | ⟨base, hBase, type, hType, rfl⟩ |
      hDefined)
    · exact .inl hBuiltin
    · have hLookup : base.types.lookup type.name =
          some (.defined type) := TypeGraph.lookup_of_mem hType
      refine .inr (.inl ⟨base, hBase, ?_⟩)
      rw [TypeGraph.contains, hLookup, Option.isSome_some]
    · exact .inr (.inr hDefined)
  · rintro (hBuiltin | ⟨base, hBase, hContains⟩ | hDefined)
    · exact .inl hBuiltin
    · rcases Option.isSome_iff_exists.1 hContains with
        ⟨type, hLookup⟩
      have hMem := TypeGraph.mem_of_lookup hLookup
      have hName := TypeGraph.name_of_lookup hLookup
      cases type with
      | builtin scalar =>
          have hAll : scalar ∈ BuiltinScalar.all := by
            cases scalar <;> decide
          exact .inl (List.mem_map.2 ⟨scalar, hAll, hName⟩)
      | defined type =>
          exact .inr (.inl ⟨base, hBase, type, hMem, hName⟩)
    · exact .inr (.inr hDefined)

/- All names that a plain document refers to are mentioned. -/
theorem mentions_of_load
    (hPlain : KnownTypeNames.Plain document)
    (hLoad : (initial base?).load file document = .ok pass)
    (hDraft : Draft.settleKinds pass.stage = .ok draft)
    {definition : TypeSystemDefinition}
    (hDefinition : definition ∈ document)
    (hOther : ∀ block, definition ≠ .schema block)
    (hName : name ∈ definition.mentions) :
    draft.Mentions name := by
  have hReach : ∀ stage stage',
      Draft.takeStage file stage definition = .ok stage' →
      stage'.Reaches name := by
    intro stage stage' hNext
    cases definition with
    | schema block => exact absurd rfl (hOther block)
    | type definition =>
        rw [TypeSystemDefinition.mentions_type] at hName
        exact Draft.Stage.reaches_of_type hNext
          (hPlain.types _ hDefinition) hName
    | extension extension =>
        rw [TypeSystemDefinition.mentions_extension] at hName
        exact Draft.Stage.reaches_of_extension hNext
          (hPlain.extensions _ hDefinition) hName
    | directive definition =>
        simp [TypeSystemDefinition.mentions,
          KnownTypeNames.typeSystemDefinitionReferences,
          KnownTypeNames.inputReferences,
          hPlain.directives _ hDefinition] at hName
  have hStage : Draft.Stage.Reaches pass.stage name :=
    Results.foldlM_reaches hDefinition hReach
      (fun _ _ _ hNext hStage => hStage.takeStage hNext)
      (of_load hLoad).1
  exact hStage.settleKinds hDraft

/- Nothing else is, if the base mentions only its own types. -/
theorem within_of_load
    {Known : String → Prop}
    (hBase : ∀ base ∈ base?, ∀ name,
      base.types.Mentions name → Known name)
    (hDocument : ∀ definition ∈ document,
      ∀ name ∈ definition.mentions, Known name)
    (hLoad : (initial base?).load file document = .ok pass)
    (hDraft : Draft.settleKinds pass.stage = .ok draft) :
    draft.Within Known := by
  have hStart : Draft.Stage.Within Known (initial base?).stage := by
    cases base? with
    | none => exact ⟨by simp [initial, empty, stage, Draft.Within],
        by simp [initial, empty, stage]⟩
    | some base =>
        refine ⟨?_, by simp [initial, ofSchema, stage]⟩
        intro entry hEntry name hName
        rcases List.mem_filterMap.1 hEntry with
          ⟨type, hType, hFound⟩
        cases type with
        | builtin scalar => cases hFound
        | defined type =>
            cases hFound
            exact hBase base rfl name ⟨_, hType, hName⟩
  have hStage : Draft.Stage.Within Known pass.stage :=
    Results.foldlM_keeps_of_mem
      (fun definition hDefinition _ _ hNext hStage =>
        hStage.takeStage (hDocument definition hDefinition) hNext)
      (of_load hLoad).1 hStart
  exact hStage.settleKinds hDraft

/- The roots of a pass are those of its base and document. -/
theorem rootsWithin_of_load
    {Known : String → Prop}
    (hBase : ∀ base ∈ base?, ∀ operation ref,
      base.roots.get? operation = some ref → Known ref.type)
    (hDocument : ∀ definition ∈ document,
      ∀ name ∈ definition.mentions, Known name)
    (hLoad : (initial base?).load file document = .ok pass) :
    pass.RootsWithin Known := by
  have hStart : (initial base?).RootsWithin Known := by
    cases base? with
    | none =>
        intro operation ref hRef
        cases operation <;> cases hRef
    | some base => exact hBase base rfl
  exact Results.foldlM_keeps_of_mem
    (fun definition hDefinition _ _ hNext hPass =>
      hPass.take (hDocument definition hDefinition) hNext)
    hLoad hStart

/- A root that a schema block names is a root of the pass. -/
theorem hasRoot_of_load
    {block : SchemaBlock}
    (hLoad : (initial base?).load file document = .ok pass)
    (hBlock : .schema block ∈ document)
    (hName : name ∈
      (TypeSystemDefinition.schema block).mentions) :
    pass.HasRoot name :=
  Results.foldlM_reaches hBlock
    (fun _ _ hNext => hasRoot_of_take hNext hName)
    (fun _ _ _ hNext hPass => hPass.take hNext) hLoad

end Pass

------------------------------------------------------------
-- Agreement
------------------------------------------------------------

/- A failure reports a name that is undefined. -/
def BuildError.Reports (Undefined : String → Prop) :
    BuildError → Prop
| typeErrors errors =>
    ∃ error ∈ errors, error.undefinedName?.isSome = true
| rootNotObject _ type _ => Undefined type
| _ => False

/- Failures that concern one type do not. -/
theorem BuildError.IsLocal.not_reports
    {Undefined : String → Prop}
    {error : BuildError}
    (h : error.IsLocal) : ¬ error.Reports Undefined := by
  cases error <;> simp_all [IsLocal, Reports]

namespace KnownTypeNames

variable {base? : Option Schema} {file : Option String}
variable {document : TypeSystemDocument}

/- A schema that is built has a type for every name. -/
theorem checkTypeSystem_of_declare
    (hPlain : Plain document)
    {schema : Schema}
    (h : Schema.declare base? file document = .ok schema) :
    checkTypeSystem base? document = [] := by
  rw [Schema.declare_eq] at h
  rcases Results.bind_eq_ok_iff.1 h with ⟨pass, hLoad, hBuild⟩
  rcases Pass.build_eq_ok_iff.1 hBuild with
    ⟨draft, graph, hDraft, hGraph, hAssemble⟩
  have hClosed := Schema.closed_of_assemble hAssemble
  rcases Pass.assemble_eq_ok_iff.1 hAssemble with ⟨rfl, -⟩
  apply checkTypeSystem_eq_nil_iff.2
  intro definition hDefinition name hName
  apply isKnown_iff.2
  refine .inl
    ((Pass.contains_iff_defines hLoad hDraft hGraph).1 ?_)
  by_cases hBlock : ∃ block, definition = .schema block
  · rcases hBlock with ⟨block, rfl⟩
    rcases Pass.hasRoot_of_load hLoad hDefinition hName with
      ⟨operation, ref, hRef, rfl⟩
    have hRoot := Pass.settleRoot_of_build hBuild operation
    rw [hRef] at hRoot
    exact hClosed.contains_root (Pass.eq_of_settleRoot hRoot)
  · apply hClosed.types.contains
    apply (TypeGraph.mentions_of_registerAll hGraph).2
    rcases Pass.mentions_of_load hPlain hLoad hDraft hDefinition
        (fun block hSame => hBlock ⟨block, hSame⟩) hName with
      ⟨type, entry, hEntry, hMentions⟩
    exact ⟨entry, List.mem_of_find?_eq_some hEntry, hMentions⟩

/- If all names are known, none is reported as undefined. -/
theorem not_reports_of_checkTypeSystem
    (hBase : ∀ base ∈ base?, base.Built)
    (hPlain : Plain document)
    (h : checkTypeSystem base? document = []) :
    Results.Fails
      (fun error =>
        ¬ error.Reports fun name => ¬ Defines base? document name)
      (Schema.declare base? file document) := by
  have hDocument : ∀ definition ∈ document,
      ∀ name ∈ definition.mentions,
      Defines base? document name := by
    intro definition hDefinition name hName
    have hKnown := checkTypeSystem_eq_nil_iff.1 h definition
      hDefinition name hName
    rcases isKnown_iff.1 hKnown with hDefines | hOther
    · exact hDefines
    · exact absurd hOther
        (hPlain.not_mem_introspectionNames hDefinition hName)
  rw [Schema.declare_eq]
  apply Results.Fails.bind
  · intro error hError
    exact (Pass.load_fails _ _ _ error hError).not_reports
  intro pass hLoad error hError
  rcases Pass.build_fails error hError with
    hLocal | ⟨draft, graph, hDraft, hGraph, hRejects⟩
  · exact hLocal.not_reports
  cases hRejects with
  | types =>
      rintro ⟨typeError, hMem, hSome⟩
      rcases Option.isSome_iff_exists.1 hSome with ⟨name, hName⟩
      rcases TypeGraph.explains_errors typeError hMem name hName
        with ⟨hLookup, hMentions⟩
      have hWithin : draft.Within (Defines base? document) := by
        refine Pass.within_of_load ?_ hDocument hLoad hDraft
        intro base hMem name hName
        exact .inr (.inl ⟨base, hMem,
          (hBase base hMem).closed.types.contains hName⟩)
      rcases (TypeGraph.mentions_of_registerAll hGraph).1
          hMentions with ⟨entry, hEntry, hMentioned⟩
      have hContains :=
        (Pass.contains_iff_defines hLoad hDraft hGraph).2
          (hWithin entry hEntry name hMentioned)
      simp [TypeGraph.contains, hLookup] at hContains
  | root hRef _ =>
      intro hUndefined
      apply hUndefined
      refine Pass.rootsWithin_of_load ?_ hDocument hLoad _ _ hRef
      intro base hMem operation ref hBaseRef
      exact .inr (.inl ⟨base, hMem,
        (hBase base hMem).closed.contains_root hBaseRef⟩)

/-
  The rule and the builder agree on a plain document. If it
  can be built, or extends the base, the rule finds no unknown
  names. If the rule finds none, then whatever the failure is,
  it does not report an undefined name.
-/
theorem agrees_with_declare
    (base? : Option Schema)
    (hBase : ∀ base ∈ base?, base.Built)
    (file : Option String)
    (document : TypeSystemDocument)
    (hPlain : Plain document) :
    (∀ schema,
      Schema.declare base? file document = .ok schema →
      checkTypeSystem base? document = []) ∧
    (checkTypeSystem base? document = [] →
      ∀ error,
      Schema.declare base? file document = .error error →
      ¬ error.Reports fun name =>
        ¬ Defines base? document name) :=
  ⟨fun _ => checkTypeSystem_of_declare hPlain,
    fun h => not_reports_of_checkTypeSystem hBase hPlain h⟩

end KnownTypeNames

------------------------------------------------------------
-- A Catalogue
------------------------------------------------------------

namespace Catalogue

/- A union whose member is known, but not an object. -/
def shelf : TypeSystemDocument :=
  [.type ⟨position, none, "Shelf", [], .union ["Item"]⟩]

theorem supplement_plain : KnownTypeNames.Plain supplement where
  references := by decide
  directives := by simp [supplement]
  types := by
    simp [supplement, TypeContent.NamesArguments,
      TypeContent.fields, declared]
  extensions := by
    simp [supplement, TypeContent.NamesArguments,
      TypeContent.fields, declared]

theorem shelf_plain : KnownTypeNames.Plain shelf where
  references := by decide
  directives := by simp [shelf]
  types := by
    simp [shelf, TypeContent.NamesArguments, TypeContent.fields]
  extensions := by simp [shelf]

/-
  The catalogue is extended by names that are known. A shelf
  of items is refused, but not for want of a type.
-/
theorem rule_agrees_with_extensions :
    ((∃ extended,
        Schema.declare (some schema) none supplement =
          .ok extended) ∧
      KnownTypeNames.checkTypeSystem (some schema) supplement =
        []) ∧
    (KnownTypeNames.checkTypeSystem (some schema) shelf = [] ∧
      ∃ errors,
        Schema.declare (some schema) none shelf =
            .error (.typeErrors errors) ∧
          ∀ error ∈ errors, error.undefinedName? = none) := by
  have hBase : ∀ base ∈ some schema, base.Built := by
    rintro base ⟨⟩
    exact built
  constructor
  · have hOk : (Schema.declare (some schema) none
        supplement).isOk = true := by
      with_unfolding_all rfl
    cases hExtended : Schema.declare (some schema) none
        supplement with
    | error error =>
        rw [hExtended] at hOk
        cases hOk
    | ok extended =>
        exact ⟨⟨extended, rfl⟩,
          (KnownTypeNames.agrees_with_declare _ hBase none _
            supplement_plain).1 extended hExtended⟩
  · have hKnown : KnownTypeNames.checkTypeSystem (some schema)
        shelf = [] := by
      decide
    have hError : Schema.declare (some schema) none shelf =
        .error
          (.typeErrors
            [.memberKind place "Shelf" "Item" .interface]) := by
      with_unfolding_all rfl
    refine ⟨hKnown, _, hError, ?_⟩
    intro error hMem
    have hReports :=
      (KnownTypeNames.agrees_with_declare _ hBase none _
        shelf_plain).2 hKnown _ hError
    rw [← Option.not_isSome_iff_eq_none]
    exact fun hSome => hReports ⟨error, hMem, hSome⟩

end Catalogue

end GraphQL
