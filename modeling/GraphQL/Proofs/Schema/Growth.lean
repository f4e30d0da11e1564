import GraphQL.Proofs.Schema.ByName

/-
  Extensions that only add to a schema.

  Documents that add fields to objects and interfaces, extend
  scalars, define directives, and define types that are
  foreign to the interfaces of a schema leave its types as they
  are but for such fields. The new types follow the old ones.

  Key definitions include:
    * `TypeDef.Grows`, `NamedType.Grows`, `Schema.Grows`
    * `TypeDef.Foreign`
    * `TypeSystemDefinition.Adds`, `Pass.AddsTo`

  Main declarations:
    * `Draft.GrownFrom.takeStage`, `Draft.GrownFrom.settleKinds`
    * `Pass.AddsTo.grows`
-/

------------------------------------------------------------
-- Types That Grow
------------------------------------------------------------

namespace GraphQL

/- What an extension leaves of a header. -/
structure TypeHeader.Grows (header next : TypeHeader) :
    Prop where
  name : next.name = header.name
  location : next.location = header.location
  description : next.description = header.description
  metadata : next.metadata = header.metadata

/- More fields follow those that were there. -/
structure FieldShape.Grows (shape next : FieldShape) :
    Prop where
  fields : shape.fields <+: next.fields
  interfaces : next.interfaces = shape.interfaces
  resolveField : next.resolveField = shape.resolveField

structure ObjectType.Grows (type next : ObjectType) :
    Prop where
  header : type.header.Grows next.header
  shape : type.shape.Grows next.shape
  isTypeOf : next.isTypeOf = type.isTypeOf

structure InterfaceType.Grows (type next : InterfaceType) :
    Prop where
  header : type.header.Grows next.header
  shape : type.shape.Grows next.shape
  resolveType : next.resolveType = type.resolveType

/- A scalar keeps its coercions. -/
structure ScalarType.Grows (type next : ScalarType) :
    Prop where
  header : type.header.Grows next.header
  serialize : next.serialize = type.serialize
  parseValue : next.parseValue = type.parseValue
  parseLiteral : next.parseLiteral = type.parseLiteral

/- What additions make of a type; some kinds stay the same. -/
inductive TypeDef.Grows : TypeDef → TypeDef → Prop
  | object {type next : ObjectType} :
      type.Grows next → Grows (.object type) (.object next)
  | interface {type next : InterfaceType} :
      type.Grows next →
      Grows (.interface type) (.interface next)
  | scalar {type next : ScalarType} :
      type.Grows next → Grows (.scalar type) (.scalar next)
  | union (type : UnionType) : Grows (.union type) (.union type)
  | enum (type : EnumType) : Grows (.enum type) (.enum type)
  | inputObject (type : InputObjectType) :
      Grows (.inputObject type) (.inputObject type)

/- What additions make of a type of a graph. -/
inductive NamedType.Grows : NamedType → NamedType → Prop
  | builtin (scalar : BuiltinScalar) :
      Grows (.builtin scalar) (.builtin scalar)
  | defined {type next : TypeDef} :
      type.Grows next → Grows (.defined type) (.defined next)

theorem TypeHeader.Grows.refl (header : TypeHeader) :
    header.Grows header :=
  ⟨rfl, rfl, rfl, rfl⟩

theorem TypeHeader.Grows.trans
    {header next last : TypeHeader}
    (h : header.Grows next)
    (h' : next.Grows last) : header.Grows last where
  name := h'.name.trans h.name
  location := h'.location.trans h.location
  description := h'.description.trans h.description
  metadata := h'.metadata.trans h.metadata

/- An extension changes directives and places only. -/
theorem TypeHeader.grows_extend
    (header : TypeHeader)
    (location : SourceLocation)
    (extension : TypeExtension) :
    header.Grows (header.extend location extension) :=
  ⟨rfl, rfl, rfl, rfl⟩

theorem FieldShape.Grows.refl (shape : FieldShape) :
    shape.Grows shape :=
  ⟨List.prefix_rfl, rfl, rfl⟩

theorem FieldShape.Grows.trans
    {shape next last : FieldShape}
    (h : shape.Grows next)
    (h' : next.Grows last) : shape.Grows last where
  fields := h.fields.trans h'.fields
  interfaces := h'.interfaces.trans h.interfaces
  resolveField := h'.resolveField.trans h.resolveField

/- A body grows if it gets no interfaces. -/
theorem FieldShape.grows_add
    (shape : FieldShape)
    (fields : Entries OutputField) :
    shape.Grows (shape.add [] fields) where
  fields := List.prefix_append shape.fields fields
  interfaces := List.append_nil shape.interfaces
  resolveField := rfl

namespace TypeDef

variable {type next last : TypeDef}

theorem Grows.refl (type : TypeDef) : type.Grows type := by
  cases type with
  | object type => exact .object ⟨.refl _, .refl _, rfl⟩
  | interface type => exact .interface ⟨.refl _, .refl _, rfl⟩
  | scalar type => exact .scalar ⟨.refl _, rfl, rfl, rfl⟩
  | union type => exact .union type
  | enum type => exact .enum type
  | inputObject type => exact .inputObject type

theorem Grows.name_eq (h : type.Grows next) :
    next.name = type.name := by
  cases h with
  | object h => exact h.header.name
  | interface h => exact h.header.name
  | scalar h => exact h.header.name
  | _ => rfl

theorem Grows.trans
    (h : type.Grows next)
    (h' : next.Grows last) : type.Grows last := by
  cases h with
  | object h =>
      cases h' with
      | object h' =>
          exact .object
            ⟨h.header.trans h'.header, h.shape.trans h'.shape,
              h'.isTypeOf.trans h.isTypeOf⟩
  | interface h =>
      cases h' with
      | interface h' =>
          exact .interface
            ⟨h.header.trans h'.header, h.shape.trans h'.shape,
              h'.resolveType.trans h.resolveType⟩
  | scalar h =>
      cases h' with
      | scalar h' =>
          exact .scalar
            ⟨h.header.trans h'.header,
              h'.serialize.trans h.serialize,
              h'.parseValue.trans h.parseValue,
              h'.parseLiteral.trans h.parseLiteral⟩
  | union _ => exact h'
  | enum _ => exact h'
  | inputObject _ => exact h'

end TypeDef

theorem NamedType.Grows.refl (type : NamedType) :
    type.Grows type := by
  cases type with
  | builtin scalar => exact .builtin scalar
  | defined type => exact .defined (.refl type)

theorem NamedType.Grows.name_eq
    {type next : NamedType}
    (h : type.Grows next) : next.name = type.name := by
  cases h with
  | builtin scalar => rfl
  | defined h => exact h.name_eq

------------------------------------------------------------
-- Additions
------------------------------------------------------------

/- A type that declares no interface of a graph. -/
def TypeDef.Foreign (graph : TypeGraph) (type : TypeDef) :
    Prop :=
  ∀ shape, (NamedType.defined type).shape? = some shape →
    ∀ name ∈ shape.interfaces, ¬graph.HasInterface name

/- The interfaces that the content of a type declares. -/
def TypeContent.interfaces : TypeContent → List String
| .object interfaces _ => interfaces
| .interface interfaces _ => interfaces
| _ => []

/- An extension that adds fields, or extends a scalar. -/
inductive TypeContent.Adds : TypeContent → Prop
  | scalar : Adds .scalar
  | object (fields : List FieldDefinition) :
      Adds (.object [] fields)
  | interface (fields : List FieldDefinition) :
      Adds (.interface [] fields)

/-
  A definition that adds to a graph: a type that is foreign to
  its interfaces, fields, something for a scalar, or a
  directive.
-/
def TypeSystemDefinition.Adds (graph : TypeGraph) :
    TypeSystemDefinition → Prop
| .schema _ => False
| .type definition =>
    ∀ name ∈ definition.content.interfaces,
      ¬graph.HasInterface name
| .extension added => added.content.Adds
| .directive _ => True

/- A pass that extends a schema and only adds to it. -/
inductive Pass.AddsTo (base : Schema) : Pass → Prop
  | start : AddsTo base (.ofSchema base)
  | load {pass next : Pass} {file : Option String}
      {document : TypeSystemDocument} :
      AddsTo base pass →
      (∀ definition ∈ document, definition.Adds base.types) →
      pass.load file document = .ok next →
      AddsTo base next
  | loadText {pass next : Pass} {path? : Option String}
      {text : String} {document : TypeSystemDocument} :
      AddsTo base pass →
      TypeSystemDocument.read? text = some document →
      (∀ definition ∈ document, definition.Adds base.types) →
      pass.loadText path? text = .ok next →
      AddsTo base next
  | define {pass next : Pass} {type : TypeDef} :
      AddsTo base pass →
      type.Foreign base.types →
      pass.define type = .ok next →
      AddsTo base next

namespace TypeDef

variable {location : SourceLocation} {type next : TypeDef}
variable {graph : TypeGraph}

/- A type without fields declares no interface. -/
theorem foreign_of_shape?_eq_none
    (h : (NamedType.defined type).shape? = none) :
    type.Foreign graph := by
  intro shape hShape
  rw [h] at hShape
  cases hShape

/- A type declares the interfaces of its definition. -/
theorem foreign_ofDefinition
    {definition : TypeDefinition}
    (h : ofDefinition location definition = .ok type)
    (hAdds : ∀ name ∈ definition.content.interfaces,
      ¬graph.HasInterface name) : type.Foreign graph := by
  cases ofDefinition_eq_ok_iff.1 h with
  | object hContent _ _ =>
      rw [hContent] at hAdds
      rintro shape ⟨⟩
      exact hAdds
  | interface hContent _ _ _ =>
      rw [hContent] at hAdds
      rintro shape ⟨⟩
      exact hAdds
  | scalar | union | enum | inputObject =>
      exact foreign_of_shape?_eq_none rfl

/- A type grows by an extension that adds. -/
theorem Extends.grows
    {extension : TypeExtension}
    (h : Extends location extension type next)
    (hAdds : extension.content.Adds) : type.Grows next := by
  cases h with
  | scalar hContent =>
      exact .scalar
        ⟨TypeHeader.grows_extend _ _ _, rfl, rfl, rfl⟩
  | @object _ _ _ fields hContent hFields hAdmits =>
      rw [hContent] at hAdds
      cases hAdds
      exact .object
        ⟨TypeHeader.grows_extend _ _ _,
          FieldShape.grows_add _ fields, rfl⟩
  | @interface _ _ _ fields hContent hFields hSelf hAdmits =>
      rw [hContent] at hAdds
      cases hAdds
      exact .interface
        ⟨TypeHeader.grows_extend _ _ _,
          FieldShape.grows_add _ fields, rfl⟩
  | union hContent hFresh =>
      rw [hContent] at hAdds
      cases hAdds
  | enum hContent hFresh =>
      rw [hContent] at hAdds
      cases hAdds
  | inputObject hContent hAdded hFresh =>
      rw [hContent] at hAdds
      cases hAdds

/- A type that grows declares the same interfaces. -/
theorem Foreign.grows
    (hType : type.Foreign graph)
    (h : type.Grows next) : next.Foreign graph := by
  cases h with
  | object h =>
      intro shape hShape name hName
      cases hShape
      rw [h.shape.interfaces] at hName
      exact hType _ rfl name hName
  | interface h =>
      intro shape hShape name hName
      cases hShape
      rw [h.shape.interfaces] at hName
      exact hType _ rfl name hName
  | scalar _ => exact foreign_of_shape?_eq_none rfl
  | union _ => exact hType
  | enum _ => exact hType
  | inputObject _ => exact hType

end TypeDef

------------------------------------------------------------
-- Drafts
------------------------------------------------------------

namespace Draft

variable {draft next : Draft} {file : Option String}
variable {base : List TypeDef} {graph : TypeGraph}

/-
  The types that a draft started with have grown in place, and
  the types after them are foreign to the interfaces of a
  graph.
-/
structure GrownFrom
    (base : List TypeDef)
    (graph : TypeGraph)
    (draft : Draft) : Prop where
  distinct : draft.Distinct
  parts : ∃ old new, draft = old ++ new ∧
    List.Forall₂ (fun type entry => type.Grows entry.type)
      base old ∧
    ∀ entry ∈ new, entry.type.Foreign graph

/- A new foreign type comes last. -/
theorem GrownFrom.define
    {type : TypeDef}
    (h : draft.GrownFrom base graph)
    (hType : type.Foreign graph)
    (hNext : draft.define type = .ok next) :
    next.GrownFrom base graph := by
  refine ⟨distinct_of_define hNext h.distinct, ?_⟩
  rcases define_eq_ok_iff.1 hNext with ⟨-, -, -, rfl⟩
  rcases h.parts with ⟨old, new, rfl, hOld, hNew⟩
  refine ⟨old, new ++ [⟨type, true⟩], by simp, hOld, ?_⟩
  intro entry hEntry
  rcases List.mem_append.1 hEntry with hBefore | hLast
  · exact hNew entry hBefore
  · rw [List.mem_singleton.1 hLast]
    exact hType

/- An extension that adds takes one type a step further. -/
theorem GrownFrom.applies
    {waiting : SourceLocation × TypeExtension}
    (h : draft.GrownFrom base graph)
    (hAdds : waiting.2.content.Adds)
    (hNext : Applies waiting draft next) :
    next.GrownFrom base graph := by
  refine ⟨distinct_of_applies hNext h.distinct, ?_⟩
  rcases hNext with ⟨-, found, extended, hFound, hType, rfl⟩
  have hGrows : ∀ entry ∈ draft,
      entry.type.Grows
        (if entry.type.name = waiting.2.name then
          (⟨extended, true⟩ : DraftEntry)
        else
          entry).type := by
    intro entry hEntry
    split
    · next hName =>
        have hSame : draft.find? waiting.2.name = some entry :=
          h.distinct.find?_eq_some_iff.2 ⟨hEntry, hName⟩
        rw [hFound] at hSame
        cases hSame
        exact hType.grows hAdds
    · exact .refl entry.type
  rcases h.parts with ⟨old, new, rfl, hOld, hNew⟩
  refine ⟨_, _, List.map_append, ?_, ?_⟩
  · rw [List.forall₂_map_right_iff]
    rw [List.forall₂_iff_get] at hOld ⊢
    refine ⟨hOld.1, fun place hPlace hPlace' => ?_⟩
    exact (hOld.2 place hPlace hPlace').trans
      (hGrows _ (List.mem_append_left _ (List.get_mem _ _)))
  · intro entry hEntry
    rcases List.mem_map.1 hEntry with ⟨before, hBefore, rfl⟩
    exact (hNew before hBefore).grows
      (hGrows before (List.mem_append_right _ hBefore))

/- A draft has grown, and will grow by what waits. -/
structure Stage.GrownFrom
    (base : List TypeDef)
    (graph : TypeGraph)
    (stage : Stage) : Prop where
  draft : Draft.GrownFrom base graph stage.1
  waiting : ∀ waiting ∈ stage.2, waiting.2.content.Adds

theorem Stage.GrownFrom.takeStage
    {definition : TypeSystemDefinition}
    {stage stage' : Stage}
    (h : Draft.takeStage file stage definition = .ok stage')
    (hAdds : definition.Adds graph)
    (hStage : stage.GrownFrom base graph) :
    stage'.GrownFrom base graph := by
  cases takeStage_eq_ok_iff.1 h with
  | type hType hDraft =>
      exact
        ⟨hStage.draft.define
          (TypeDef.foreign_ofDefinition hType hAdds) hDraft,
          hStage.waiting⟩
  | applied hApplies =>
      refine
        ⟨hStage.draft.applies ?_ hApplies, hStage.waiting⟩
      exact hAdds
  | waits =>
      exact
        ⟨hStage.draft, List.forall_mem_append.2
          ⟨hStage.waiting, List.forall_mem_singleton.2 hAdds⟩⟩
  | schema | directive => exact hStage

/- Settling what waits grows a draft as well. -/
theorem Stage.GrownFrom.settleKinds
    {stage : Stage}
    (h : Draft.settleKinds stage = .ok draft)
    (hStage : stage.GrownFrom base graph) :
    draft.GrownFrom base graph := by
  refine Results.foldlM_keeps_of_mem ?_ h hStage.draft
  intro waiting hWaiting state next hNext hState
  have hMem := (Pass.settlingList_perm _).mem_iff.1 hWaiting
  exact hState.applies (hStage.waiting waiting hMem)
    (settleOne_eq_ok_iff.1 hNext)

end Draft

------------------------------------------------------------
-- Schemas
------------------------------------------------------------

/-
  A schema that has grown: its types have grown in place, the
  types after them are foreign to the interfaces of the former
  one, and its root types are the same.
-/
structure Schema.Grows (base extended : Schema) : Prop where
  types : ∃ (old : List NamedType) (new : List TypeDef),
    extended.types.types = old ++ new.map NamedType.defined ∧
      List.Forall₂ NamedType.Grows base.types.types old ∧
      ∀ type ∈ new, type.Foreign base.types
  roots : ∀ operation ref,
    base.roots.get? operation = some ref →
      extended.roots.get? operation = some ref

/- Types are registered after those of a graph. -/
theorem Pass.exists_definitions_of_registerFinished
    {decorator? : Option Decorator}
    {draft : Draft}
    {graph last : TypeGraph}
    (h : draft.foldlM (registerFinished decorator?) graph =
      .ok last) :
    ∃ definitions : List TypeDef,
      last.types =
        graph.types ++ definitions.map NamedType.defined := by
  let Follows (state : TypeGraph) : Prop :=
    ∃ definitions : List TypeDef,
      state.types =
        graph.types ++ definitions.map NamedType.defined
  have hStart : Follows graph := ⟨[], by simp⟩
  suffices hLast : Follows last from hLast
  refine Results.foldlM_keeps ?_ h hStart
  rintro state entry next hNext ⟨definitions, hState⟩
  rcases Results.bind_eq_ok_iff.1 hNext with
    ⟨type, -, hRegister⟩
  rcases TypeGraph.register_eq_ok_iff.1 hRegister with
    ⟨-, -, hFree, rfl⟩
  refine ⟨definitions ++ [type], ?_⟩
  simp [TypeGraph.add, hState]

namespace Schema

/- The types of a schema that was built follow the scalars. -/
theorem Built.exists_definitions
    {schema : Schema}
    (h : schema.Built) :
    ∃ definitions : List TypeDef, schema.types.types =
      TypeGraph.builtin.types ++
        definitions.map NamedType.defined := by
  rcases h.exists_build with ⟨pass, decorator?, hBuild⟩
  rcases Pass.build_decorated_eq_ok_iff.1 hBuild with
    ⟨draft, graph, -, -, hGraph, hAssemble⟩
  rcases Pass.assemble_eq_ok_iff.1 hAssemble with ⟨rfl, -⟩
  exact Pass.exists_definitions_of_registerFinished hGraph

end Schema

/- Types that are carried over have not grown yet. -/
theorem Draft.grownFrom_ofGraph
    {graph : TypeGraph}
    {definitions : List TypeDef}
    (h : graph.types = TypeGraph.builtin.types ++
      definitions.map NamedType.defined) :
    (Draft.ofGraph graph).GrownFrom definitions graph := by
  have hDraft : Draft.ofGraph graph =
      definitions.map fun type => ⟨type, false⟩ := by
    unfold Draft.ofGraph
    rw [h, List.filterMap_append, List.filterMap_map]
    simp [TypeGraph.builtin, BuiltinScalar.all]
  have hNames := graph.nodup_names
  rw [h, List.map_append, List.map_map] at hNames
  rw [hDraft]
  constructor
  · unfold Draft.Distinct
    rw [List.map_map]
    exact (List.nodup_append.1 hNames).2.1
  · refine ⟨_, [], (List.append_nil _).symm, ?_, by simp⟩
    rw [List.forall₂_map_right_iff]
    exact List.forall₂_same.2 fun type _ => .refl type

namespace Pass

variable {base extended : Schema} {pass : Pass}
variable {definitions : List TypeDef}

/- A document that adds grows the types, and no more. -/
theorem grownFrom_of_load
    {next : Pass}
    {file : Option String}
    {document : TypeSystemDocument}
    (h : pass.load file document = .ok next)
    (hAdds : ∀ definition ∈ document,
      definition.Adds base.types)
    (hPass : pass.stage.GrownFrom definitions base.types) :
    next.stage.GrownFrom definitions base.types ∧
      next.roots = pass.roots := by
  have hRoots : ∀ block, .schema block ∉ document :=
    fun block hBlock => hAdds _ hBlock
  rcases (load_eq_ok_iff hRoots).1 h with
    ⟨stage, directives, hStage, -, rfl⟩
  refine ⟨?_, rfl⟩
  refine Results.foldlM_keeps_of_mem ?_ hStage hPass
  intro definition hDefinition state next hNext hState
  exact hState.takeStage hNext (hAdds definition hDefinition)

/- A pass that only adds grows the types of its schema. -/
theorem AddsTo.grownFrom
    (hTypes : base.types.types = TypeGraph.builtin.types ++
      definitions.map NamedType.defined)
    (h : AddsTo base pass) :
    pass.stage.GrownFrom definitions base.types ∧
      pass.roots = base.roots := by
  induction h with
  | start =>
      exact ⟨⟨Draft.grownFrom_ofGraph hTypes, nofun⟩, rfl⟩
  | load _ hAdds hLoad ih =>
      rcases grownFrom_of_load hLoad hAdds ih.1 with
        ⟨hStage, hRoots⟩
      exact ⟨hStage, hRoots.trans ih.2⟩
  | loadText _ hRead hAdds hLoad ih =>
      simp only [Pass.loadText, hRead] at hLoad
      rcases grownFrom_of_load hLoad hAdds ih.1 with
        ⟨hStage, hRoots⟩
      exact ⟨hStage, hRoots.trans ih.2⟩
  | define _ hType hNext ih =>
      rcases Results.bind_eq_ok_iff.1 hNext with
        ⟨draft, hDraft, hNext⟩
      cases hNext
      exact
        ⟨⟨ih.1.draft.define hType hDraft, ih.1.waiting⟩, ih.2⟩

/- A schema grows by a pass that only adds to it. -/
theorem AddsTo.grows
    (h : AddsTo base pass)
    (hBase : base.Built)
    (hBuild : pass.build none = .ok extended) :
    base.Grows extended := by
  rcases hBase.exists_definitions with ⟨definitions, hTypes⟩
  rcases h.grownFrom hTypes with ⟨hStage, hRoots⟩
  rcases build_eq_ok_iff.1 hBuild with
    ⟨draft, graph, hSettled, hGraph, hAssemble⟩
  rcases assemble_eq_ok_iff.1 hAssemble with
    ⟨rfl, -, -, hSettle⟩
  rcases (hStage.settleKinds hSettled).parts with
    ⟨old, new, rfl, hOld, hNew⟩
  constructor
  · refine
      ⟨TypeGraph.builtin.types ++
          old.map fun entry => .defined entry.type,
        new.map DraftEntry.type, ?_, ?_, ?_⟩
    · rw [TypeGraph.types_of_registerAll hGraph]
      simp
    · rw [hTypes]
      refine List.rel_append ?_ ?_
      · exact List.forall₂_same.2 fun type _ => .refl type
      · rw [List.forall₂_map_left_iff,
          List.forall₂_map_right_iff]
        exact hOld.imp fun _ _ hGrows => .defined hGrows
    · intro type hType
      rcases List.mem_map.1 hType with ⟨entry, hEntry, rfl⟩
      exact hNew entry hEntry
  · intro operation ref hRef
    have hRoot := hSettle operation
    rw [hRoots, hRef] at hRoot
    unfold settleRoot at hRoot
    simp only at hRoot
    split at hRoot
    · exact (Except.ok.inj hRoot).symm
    · cases hRoot

/- Documents that add to a schema extend it by such a pass. -/
theorem AddsTo.exists_of_extend
    {documents : List TypeSystemDocument}
    (hAdds : ∀ document ∈ documents, ∀ definition ∈ document,
      definition.Adds base.types)
    (h : base.extend documents none = .ok extended) :
    ∃ pass, AddsTo base pass ∧
      pass.build none = .ok extended := by
  rcases Results.bind_eq_ok_iff.1 h with ⟨pass, hPass, hBuild⟩
  refine ⟨pass, ?_, hBuild⟩
  refine Results.foldlM_keeps_of_mem ?_ hPass .start
  intro document hDocument pass next hNext hAddsTo
  exact hAddsTo.load (hAdds document hDocument) hNext

end Pass

end GraphQL
