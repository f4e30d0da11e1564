import GraphQL.Proofs.Schema.Built
import GraphQL.Proofs.Schema.DeclaredMembers
import GraphQL.Proofs.Schema.Passes

/-
  Types that stand in schema text.

  A pass that takes nothing but documents has touched all its
  types, and all parts of them stand in schema text.

  Key definitions include:
    * `TypeDef.InText`
    * `Draft.InText`
    * `Pass.Reads`: a pass that takes documents

  Main declarations:
    * `TypeDef.inText_ofDefinition`
    * `TypeDef.Extends.inText`
    * `Pass.Reads.inText`
-/

------------------------------------------------------------
-- Parts Of Types
------------------------------------------------------------

namespace GraphQL

/- Entries all of which stand in schema text. -/
def Entries.InText
    {α : Type}
    (place : α → SourceLocation)
    (entries : Entries α) : Prop :=
  ∀ entry ∈ entries, (place entry.2).isSdl = true

namespace Entries

variable {α : Type} {place : α → SourceLocation}
variable {entries added : Entries α}

theorem InText.append
    (h : InText place entries)
    (hAdded : InText place added) :
    InText place (entries ++ added) := by
  intro entry hEntry
  rcases List.mem_append.1 hEntry with hBefore | hNew
  · exact h entry hBefore
  · exact hAdded entry hNew

end Entries

namespace Declared

variable {type : String} {location : SourceLocation}
variable (hLocation : location.isSdl = true)

include hLocation

/- Fields that are declared in schema text stand there. -/
theorem inText_fields
    {definitions : List FieldDefinition}
    {result : Entries OutputField}
    (h : fields type location definitions = .ok result) :
    result.InText OutputField.location := by
  rcases fields_eq_ok_iff.1 h with ⟨-, -, hAll⟩
  intro entry hEntry
  rcases Results.exists_of_forall₂_of_mem hAll hEntry with
    ⟨definition, -, given, -, rfl⟩
  exact (location.isSdl_moved _).trans hLocation

/- Input fields that are declared in schema text stand there. -/
theorem inText_inputFields
    {definitions : List InputValueDefinition}
    {result : Entries InputValue}
    (h : inputFields type location definitions = .ok result) :
    result.InText InputValue.location := by
  rcases inputFields_eq_ok_iff.1 h with ⟨-, -, rfl⟩
  intro entry hEntry
  rcases List.mem_map.1 hEntry with ⟨definition, -, rfl⟩
  exact (location.isSdl_moved _).trans hLocation

end Declared

/- Values that stand in schema text and have distinct names. -/
structure EnumValue.InText (values : List EnumValue) : Prop where
  location : ∀ value ∈ values, value.location.isSdl = true
  nodup_names : (values.map EnumValue.name).Nodup

/- Values that are new may be declared as well. -/
theorem EnumValue.InText.append
    {values : List EnumValue}
    {definitions : List EnumValueDefinition}
    {location : SourceLocation}
    (h : InText values)
    (hLocation : location.isSdl = true)
    (hFresh : Fresh (values.map EnumValue.name)
      (definitions.map EnumValueDefinition.name)) :
    InText (values ++ definitions.map fun definition =>
      Declared.enumValue (location.moved definition.position)
        definition) := by
  constructor
  · intro value hValue
    rcases List.mem_append.1 hValue with hBefore | hNew
    · exact h.location value hBefore
    · rcases List.mem_map.1 hNew with ⟨definition, -, rfl⟩
      exact (location.isSdl_moved _).trans hLocation
  · rw [List.map_append, Declared.names_enumValues]
    exact hFresh.nodup_append h.nodup_names

------------------------------------------------------------
-- Types
------------------------------------------------------------

namespace TypeDef

/- A type that stands in schema text with all its parts. -/
inductive InText : TypeDef → Prop where
  | object {type : ObjectType} :
      type.header.location.isSdl = true →
      type.shape.fields.InText OutputField.location →
      InText (.object type)
  | interface {type : InterfaceType} :
      type.header.location.isSdl = true →
      type.shape.fields.InText OutputField.location →
      InText (.interface type)
  | union {type : UnionType} :
      type.header.location.isSdl = true →
      InText (.union type)
  | enum {type : EnumType} :
      type.header.location.isSdl = true →
      EnumValue.InText type.values →
      InText (.enum type)
  | scalar {type : ScalarType} :
      type.header.location.isSdl = true →
      InText (.scalar type)
  | inputObject {type : InputObjectType} :
      type.header.location.isSdl = true →
      type.fields.InText InputValue.location →
      InText (.inputObject type)

variable {location : SourceLocation} {type next : TypeDef}

theorem InText.location_isSdl (h : type.InText) :
    type.location.isSdl = true := by
  cases h <;> assumption

/- What a definition declares stands in its text. -/
theorem inText_ofDefinition
    {definition : TypeDefinition}
    (hLocation : location.isSdl = true)
    (h : ofDefinition location definition = .ok type) :
    type.InText := by
  cases ofDefinition_eq_ok_iff.1 h with
  | scalar _ => exact .scalar hLocation
  | object _ hFields _ =>
      exact .object hLocation
        (Declared.inText_fields hLocation hFields)
  | interface _ hFields _ _ =>
      exact .interface hLocation
        (Declared.inText_fields hLocation hFields)
  | union _ _ => exact .union hLocation
  | enum _ _ hNodup =>
      have hNone : EnumValue.InText [] :=
        ⟨by simp, List.nodup_nil⟩
      exact .enum hLocation
        (hNone.append hLocation (Fresh.nil_iff.2 hNodup))
  | inputObject _ hFields =>
      exact .inputObject hLocation
        (Declared.inText_inputFields hLocation hFields)

/- What is extended by schema text still stands there. -/
theorem Extends.inText
    {extension : TypeExtension}
    (h : Extends location extension type next)
    (hLocation : location.isSdl = true)
    (hType : type.InText) : next.InText := by
  cases h with
  | scalar _ =>
      cases hType with
      | scalar hHeader => exact .scalar hHeader
  | object _ hFields _ =>
      cases hType with
      | object hHeader hShape =>
          exact .object hHeader (hShape.append
            (Declared.inText_fields hLocation hFields))
  | interface _ hFields _ _ =>
      cases hType with
      | interface hHeader hShape =>
          exact .interface hHeader (hShape.append
            (Declared.inText_fields hLocation hFields))
  | union _ _ =>
      cases hType with
      | union hHeader => exact .union hHeader
  | enum _ hFresh =>
      cases hType with
      | enum hHeader hValues =>
          exact .enum hHeader (hValues.append hLocation hFresh)
  | inputObject _ hFields _ =>
      cases hType with
      | inputObject hHeader hBefore =>
          exact .inputObject hHeader (hBefore.append
            (Declared.inText_inputFields hLocation hFields))

end TypeDef

------------------------------------------------------------
-- Drafts
------------------------------------------------------------

/- A touched type that stands in schema text. -/
structure DraftEntry.InText (entry : DraftEntry) : Prop where
  touched : entry.touched = true
  type : entry.type.InText

namespace Draft

/- All types are touched and stand in schema text. -/
def InText (draft : Draft) : Prop :=
  ∀ entry ∈ draft, entry.InText

/- What waits stands in schema text as well. -/
structure Stage.InText (stage : Stage) : Prop where
  draft : Draft.InText stage.1
  waiting : ∀ waiting ∈ stage.2, waiting.1.isSdl = true

variable {file : Option String} {draft next : Draft}

/- A type that is defined in schema text stands there. -/
theorem inText_of_define
    {type : TypeDef}
    (h : draft.define type = .ok next)
    (hType : type.InText)
    (hDraft : draft.InText) : next.InText :=
  forall_mem_of_define h hDraft ⟨rfl, hType⟩

/- An extension in schema text leaves all types there. -/
theorem Applies.inText
    {waiting : SourceLocation × TypeExtension}
    (h : Applies waiting draft next)
    (hLocation : waiting.1.isSdl = true)
    (hDraft : draft.InText) : next.InText :=
  h.forall_mem hDraft fun entry hEntry _ _ hType =>
    ⟨rfl, hType.inText hLocation (hDraft entry hEntry).type⟩

/- What a document adds stands in schema text. -/
theorem Stage.InText.takeStage
    {definition : TypeSystemDefinition}
    {stage stage' : Stage}
    (h : Draft.takeStage file stage definition = .ok stage')
    (hStage : stage.InText) : stage'.InText := by
  cases takeStage_eq_ok_iff.1 h with
  | type hType hDraft =>
      exact
        ⟨inText_of_define hDraft
          (TypeDef.inText_ofDefinition rfl hType) hStage.draft,
          hStage.waiting⟩
  | applied hApplies =>
      exact ⟨hApplies.inText rfl hStage.draft, hStage.waiting⟩
  | waits =>
      exact
        ⟨hStage.draft, List.forall_mem_append.2
          ⟨hStage.waiting, List.forall_mem_singleton.2 rfl⟩⟩
  | schema | directive => exact hStage

/- What waited stands in schema text when it is settled. -/
theorem Stage.InText.settleKinds
    {stage : Stage}
    (h : Draft.settleKinds stage = .ok draft)
    (hStage : stage.InText) : draft.InText := by
  refine Results.foldlM_keeps_of_mem ?_ h hStage.draft
  intro waiting hWaiting state next hNext hState
  have hMem := (Pass.settlingList_perm _).mem_iff.1 hWaiting
  exact (settleOne_eq_ok_iff.1 hNext).inText
    (hStage.waiting waiting hMem) hState

end Draft

------------------------------------------------------------
-- Passes
------------------------------------------------------------

namespace Pass

/- One pass follows from another by taking documents. -/
inductive Reads (start : Pass) : Pass → Prop where
  | start : Reads start start
  | load {pass next : Pass} {file : Option String}
      {document : TypeSystemDocument} :
      Reads start pass →
      pass.load file document = .ok next →
      Reads start next
  | loadText {pass next : Pass} {path? : Option String}
      {text : String} :
      Reads start pass →
      pass.loadText path? text = .ok next →
      Reads start next

/- A text that can be read is taken like its document. -/
theorem exists_load_of_loadText
    {pass next : Pass}
    {path? : Option String}
    {text : String}
    (h : pass.loadText path? text = .ok next) :
    ∃ unnamed file document,
      { pass with unnamed := unnamed }.load file document =
        .ok next := by
  unfold loadText at h
  simp only at h
  split at h
  · exact ⟨_, _, _, h⟩
  · cases h

theorem inText_of_load
    {pass next : Pass}
    {file : Option String}
    {document : TypeSystemDocument}
    (h : pass.load file document = .ok next)
    (hPass : pass.stage.InText) : next.stage.InText :=
  Results.foldlM_keeps
    (fun _ _ _ hNext hStage => hStage.takeStage hNext)
    (of_load h).1 hPass

/- What is taken from documents stands in schema text. -/
theorem Reads.inText
    {pass : Pass}
    (h : Reads .empty pass) : pass.stage.InText := by
  induction h with
  | start =>
      exact
        ⟨fun entry hEntry => absurd hEntry List.not_mem_nil,
          fun waiting hWaiting =>
            absurd hWaiting List.not_mem_nil⟩
  | load _ hLoad ih => exact inText_of_load hLoad ih
  | loadText _ hLoad ih =>
      rcases exists_load_of_loadText hLoad with
        ⟨unnamed, file, document, hDocument⟩
      exact inText_of_load hDocument ih

end Pass

end GraphQL
