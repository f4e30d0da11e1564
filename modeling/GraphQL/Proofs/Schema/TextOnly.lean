import GraphQL.Proofs.Schema.SchemaText

/-
  Schemas that schema text declares alone.

  No pass of such a schema takes a type from a program, and no
  decorator changes one. What definitions give and extensions
  keep thus holds of all its types: among other things, that
  no type lists an interface twice, and no interface itself.

  Key definitions include:
    * `Schema.FromText`
    * `TypeDef.KeptByText`
    * `TypeDef.ListsOnce`

  Main declarations:
    * `Schema.FromText.keeps`
    * `Schema.FromText.listsOnce`
-/

------------------------------------------------------------
-- Properties Of Types
------------------------------------------------------------

namespace GraphQL

/- What definitions give and extensions keep. -/
structure TypeDef.KeptByText (Property : TypeDef → Prop) :
    Prop where
  ofDefinition {location : SourceLocation}
      {definition : TypeDefinition} {type : TypeDef} :
    TypeDef.ofDefinition location definition = .ok type →
    Property type
  extension {location : SourceLocation}
      {extension : TypeExtension} {type next : TypeDef} :
    TypeDef.Extends location extension type next →
    type.name = extension.name →
    Property type →
    Property next

namespace Draft

/- All types of a draft have a property. -/
def All (Property : TypeDef → Prop) (draft : Draft) : Prop :=
  ∀ entry ∈ draft, Property entry.type

variable {Property : TypeDef → Prop}
variable {draft next : Draft}

theorem All.nil : All Property [] := by
  intro entry hEntry
  cases hEntry

/- A type that is defined has to have the property. -/
theorem All.define
    {type : TypeDef}
    (h : draft.define type = .ok next)
    (hType : Property type)
    (hDraft : draft.All Property) : next.All Property :=
  forall_mem_of_define h hDraft hType

variable (hKept : TypeDef.KeptByText Property)

include hKept

/- An extension keeps what all types have. -/
theorem All.applies
    {waiting : SourceLocation × TypeExtension}
    (h : Applies waiting draft next)
    (hDraft : draft.All Property) : next.All Property :=
  h.forall_mem hDraft fun entry hEntry _ hName hType =>
    hKept.extension hType hName (hDraft entry hEntry)

/- A definition of a document keeps what all types have. -/
theorem All.takeStage
    {file : Option String}
    {definition : TypeSystemDefinition}
    {stage stage' : Stage}
    (h : Draft.takeStage file stage definition = .ok stage')
    (hStage : All Property stage.1) :
    All Property stage'.1 := by
  cases takeStage_eq_ok_iff.1 h with
  | type hType hDraft =>
      exact hStage.define hDraft (hKept.ofDefinition hType)
  | applied hApplies => exact hStage.applies hKept hApplies
  | waits | schema | directive => exact hStage

/- What waited keeps what all types have. -/
theorem All.settleKinds
    {stage : Stage}
    (h : Draft.settleKinds stage = .ok draft)
    (hStage : All Property stage.1) : draft.All Property :=
  Results.foldlM_keeps
    (fun _ _ _ hNext hState =>
      hState.applies hKept (settleOne_eq_ok_iff.1 hNext))
    h hStage

end Draft

------------------------------------------------------------
-- Passes
------------------------------------------------------------

namespace Pass

variable {start pass next : Pass}

/- A pass that takes documents takes what it is given. -/
theorem Reads.grows (h : Reads start pass) :
    Grows start pass := by
  induction h with
  | start => exact .start
  | load _ hLoad ih => exact .load ih hLoad
  | loadText _ hLoad ih => exact .loadText ih hLoad

variable {Property : TypeDef → Prop}
variable (hKept : TypeDef.KeptByText Property)

include hKept

theorem all_of_load
    {file : Option String}
    {document : TypeSystemDocument}
    (h : pass.load file document = .ok next)
    (hPass : pass.draft.All Property) :
    next.draft.All Property :=
  Results.foldlM_keeps
    (fun _ _ _ hNext hStage =>
      Draft.All.takeStage hKept hNext hStage)
    (of_load h).1 hPass

/- Documents keep what all types of a pass have. -/
theorem Reads.all
    (h : Reads start pass)
    (hStart : start.draft.All Property) :
    pass.draft.All Property := by
  induction h with
  | start => exact hStart
  | load _ hLoad ih => exact all_of_load hKept hLoad ih
  | loadText _ hLoad ih =>
      rcases exists_load_of_loadText hLoad with
        ⟨unnamed, file, document, hDocument⟩
      exact all_of_load hKept hDocument ih

/- So does the schema of the pass. -/
theorem all_of_build
    {schema : Schema}
    (h : pass.build none = .ok schema)
    (hPass : pass.draft.All Property) :
    ∀ type, .defined type ∈ schema.types.types →
      Property type := by
  rcases build_eq_ok_iff.1 h with
    ⟨draft, graph, hSettled, hGraph, hAssemble⟩
  rcases assemble_eq_ok_iff.1 hAssemble with ⟨rfl, -⟩
  have hDraft := Draft.All.settleKinds hKept hSettled hPass
  intro type hType
  rw [TypeGraph.types_of_registerAll hGraph] at hType
  rcases List.mem_append.1 hType with hBuiltin | hDefined
  · rcases List.mem_map.1 hBuiltin with ⟨scalar, -, hScalar⟩
    cases hScalar
  · rcases List.mem_map.1 hDefined with ⟨entry, hEntry, hSame⟩
    cases hSame
    exact hDraft entry hEntry

end Pass

------------------------------------------------------------
-- Schemas
------------------------------------------------------------

namespace Schema

/-
  A schema whose passes, its own and those before it, take
  documents only and have no decorator.
-/
inductive FromText : Schema → Prop where
  | build {pass : Pass} {schema : Schema} :
      Pass.Reads .empty pass →
      pass.build none = .ok schema →
      FromText schema
  | extend {base : Schema} {pass : Pass} {schema : Schema} :
      FromText base →
      Pass.Reads (.ofSchema base) pass →
      (base.finishExtension pass none).result = .ok schema →
      FromText schema

namespace FromText

variable {schema extended : Schema}

/- Such a schema is built like any other. -/
theorem built (h : schema.FromText) : schema.Built := by
  induction h with
  | build hReads hBuild => exact .build hReads.grows hBuild
  | extend _ hReads hFinish ih =>
      exact .extend ih hReads.grows hFinish

/- Extending such a schema by documents gives another one. -/
theorem of_extend
    {documents : List TypeSystemDocument}
    (h : schema.FromText)
    (hExtend : schema.extend documents none = .ok extended) :
    extended.FromText := by
  rcases Results.bind_eq_ok_iff.1 hExtend with
    ⟨pass, hPass, hBuild⟩
  have hReads : Pass.Reads (.ofSchema schema) pass :=
    Results.foldlM_keeps
      (fun _ _ _ hNext hReads => hReads.load hNext) hPass .start
  refine .extend h hReads ?_
  rw [result_finishExtension]
  exact hBuild

/- All types have what definitions give and extensions keep. -/
theorem keeps
    {Property : TypeDef → Prop}
    (h : schema.FromText)
    (hKept : TypeDef.KeptByText Property) :
    ∀ type, .defined type ∈ schema.types.types →
      Property type := by
  induction h with
  | build hReads hBuild =>
      exact Pass.all_of_build hKept hBuild
        (hReads.all hKept .nil)
  | @extend base pass schema _ hReads hFinish ih =>
      rw [result_finishExtension] at hFinish
      refine Pass.all_of_build hKept hFinish
        (hReads.all hKept ?_)
      intro entry hEntry
      rcases List.mem_filterMap.1 hEntry with
        ⟨type, hType, hSame⟩
      cases type with
      | builtin scalar => cases hSame
      | defined type =>
          cases hSame
          exact ih type hType

end FromText

end Schema

------------------------------------------------------------
-- Listed Interfaces
------------------------------------------------------------

namespace TypeDef

/-
  A type lists an interface at most once, and an interface does
  not list itself.
-/
structure ListsOnce (type : TypeDef) : Prop where
  nodup : ∀ shape, NamedType.shape? (.defined type) = some shape →
    shape.interfaces.Nodup
  not_self : ∀ interface, type = .interface interface →
    interface.name ∉ interface.shape.interfaces

/- Types without interfaces list none twice. -/
theorem listsOnce_of_shape?_eq_none
    {type : TypeDef}
    (h : NamedType.shape? (.defined type) = none) :
    type.ListsOnce := by
  constructor
  · intro shape hShape
    rw [h] at hShape
    cases hShape
  · rintro interface rfl
    cases h

/- Schema text lists an interface once, and never itself. -/
theorem listsOnce_keptByText : KeptByText ListsOnce where
  ofDefinition {location definition type} h := by
    cases ofDefinition_eq_ok_iff.1 h with
    | object _ _ hNodup =>
        refine ⟨?_, nofun⟩
        rintro shape ⟨⟩
        exact hNodup
    | interface _ _ hNodup hSelf =>
        constructor
        · rintro shape ⟨⟩
          exact hNodup
        · rintro interface ⟨⟩
          exact hSelf
    | scalar | union | enum | inputObject =>
        exact listsOnce_of_shape?_eq_none rfl
  extension {location extension type next} h hName hType := by
    cases h with
    | @object type interfaces _ _ _ _ hAdmits =>
        refine ⟨?_, nofun⟩
        rintro shape ⟨⟩
        exact hAdmits.interfaces.nodup_append
          (hType.nodup _ rfl)
    | @interface type interfaces _ _ _ _ hSelf hAdmits =>
        constructor
        · rintro shape ⟨⟩
          exact hAdmits.interfaces.nodup_append
            (hType.nodup _ rfl)
        · rintro interface ⟨⟩ hMem
          rcases List.mem_append.1 hMem with hBefore | hNew
          · exact hType.not_self type rfl hBefore
          · exact hSelf (hName ▸ hNew)
    | _ => exact listsOnce_of_shape?_eq_none rfl

end TypeDef

/- No type that text declares lists an interface twice. -/
theorem Schema.FromText.listsOnce
    {schema : Schema}
    (h : schema.FromText) :
    ∀ type, .defined type ∈ schema.types.types →
      type.ListsOnce :=
  h.keeps TypeDef.listsOnce_keptByText

end GraphQL
