import GraphQL.Proofs.Schema.Incremental
import GraphQL.Proofs.Schema.Protection

/-
  Properties of types that last.

  What extensions keep of a type is kept by all that a pass
  takes. If it also outlasts the end of the pass, where the
  type may be decorated, the type of that name has it in the
  schema.

  Key definitions include:
    * `TypeDef.KeptByExtension`
    * `Draft.Has`: a type of a name has a property

  Main declarations:
    * `Pass.Grows.has`
    * `Schema.exists_of_build`
-/

------------------------------------------------------------
-- Drafts
------------------------------------------------------------

namespace GraphQL

/- What extensions keep of a type. -/
def TypeDef.KeptByExtension (Property : TypeDef → Prop) :
    Prop :=
  ∀ {location : SourceLocation} {extension : TypeExtension}
    {type next : TypeDef},
    TypeDef.Extends location extension type next →
    Property type → Property next

namespace Draft

variable {draft next : Draft} {file : Option String}
variable {name : String} {Property : TypeDef → Prop}

/- The type of a name is there and has a property. -/
def Has
    (draft : Draft)
    (name : String)
    (Property : TypeDef → Prop) : Prop :=
  ∃ entry, draft.find? name = some entry ∧ Property entry.type

/- Types that are added leave the others alone. -/
theorem Has.define
    {added : TypeDef}
    (h : draft.Has name Property)
    (hNext : draft.define added = .ok next) :
    next.Has name Property := by
  rcases h with ⟨entry, hEntry, hProperty⟩
  rcases define_eq_ok_iff.1 hNext with ⟨-, -, -, rfl⟩
  refine ⟨entry, ?_, hProperty⟩
  rw [find?_append, hEntry, Option.some_or]

variable (hKept : TypeDef.KeptByExtension Property)

include hKept

theorem Has.applies
    {waiting : SourceLocation × TypeExtension}
    (h : draft.Has name Property)
    (hNext : Applies waiting draft next) :
    next.Has name Property := by
  rcases h with ⟨entry, hEntry, hProperty⟩
  rcases hNext.exists_find? hEntry with
    ⟨entry', hEntry', rfl | hType⟩
  · exact ⟨entry', hEntry', hProperty⟩
  · exact ⟨entry', hEntry', hKept hType hProperty⟩

/- So does what documents add. -/
theorem Has.takeStage
    {definition : TypeSystemDefinition}
    {stage stage' : Stage}
    (h : stage.1.Has name Property)
    (hNext : Draft.takeStage file stage definition =
      .ok stage') :
    stage'.1.Has name Property := by
  cases takeStage_eq_ok_iff.1 hNext with
  | type _ hDraft => exact h.define hDraft
  | applied hApplies => exact h.applies hKept hApplies
  | waits | schema | directive => exact h

/- So do the extensions that waited. -/
theorem Has.settleKinds
    {stage : Stage}
    (h : stage.1.Has name Property)
    (hNext : Draft.settleKinds stage = .ok next) :
    next.Has name Property := by
  have hStep : ∀ (draft : Draft) waiting next,
      Pass.settleOne draft waiting = .ok next →
      draft.Has name Property → next.Has name Property :=
    fun _ _ _ hNext hDraft =>
      hDraft.applies hKept (settleOne_eq_ok_iff.1 hNext)
  exact Results.foldlM_keeps hStep hNext h

end Draft

------------------------------------------------------------
-- Passes
------------------------------------------------------------

namespace Pass

variable {start pass : Pass}
variable {name : String} {Property : TypeDef → Prop}

/- A pass never takes away what extensions keep. -/
theorem Grows.has
    (hKept : TypeDef.KeptByExtension Property)
    (h : start.Grows pass)
    (hStart : start.draft.Has name Property) :
    pass.draft.Has name Property := by
  have hLoad : ∀ {pass next : Pass} {file document},
      pass.load file document = .ok next →
      pass.draft.Has name Property →
      next.draft.Has name Property := by
    intro pass next file document hNext hPass
    have hStep : ∀ (stage : Draft.Stage) definition stage',
        Draft.takeStage file stage definition = .ok stage' →
        stage.1.Has name Property →
        stage'.1.Has name Property :=
      fun _ _ _ hTaken hStage => hStage.takeStage hKept hTaken
    exact Results.foldlM_keeps hStep (of_load hNext).1 hPass
  induction h with
  | start => exact hStart
  | load _ hNext ih => exact hLoad hNext ih
  | loadText _ hNext ih =>
      rcases exists_load_of_loadText hNext with
        ⟨unnamed, file, document, hDocument⟩
      exact hLoad hDocument ih
  | define _ hNext ih =>
      rcases Results.bind_eq_ok_iff.1 hNext with
        ⟨draft, hDraft, hNext⟩
      cases hNext
      exact ih.define hDraft

/- A finished type is the one of its entry, or decorated. -/
theorem of_finished
    {decorator? : Option Decorator}
    {entry : DraftEntry}
    {type : TypeDef}
    (h : finished decorator? entry = .ok type) :
    type = entry.type ∨
      ∃ decorator, decorator? = some decorator ∧
        decorator.apply entry.type = .ok type := by
  unfold finished at h
  split at h
  · next decorator =>
      split at h
      · exact .inr ⟨decorator, rfl, h⟩
      · cases h
        exact .inl rfl
  · cases h
    exact .inl rfl

/- A type keeps its name when it is finished. -/
theorem name_of_finished
    {decorator? : Option Decorator}
    {entry : DraftEntry}
    {type : TypeDef}
    (h : finished decorator? entry = .ok type) :
    type.name = entry.type.name := by
  rcases of_finished h with rfl | ⟨decorator, -, hApply⟩
  · rfl
  · rcases Decorator.apply_eq_ok_iff.1 hApply with ⟨hCheck, -⟩
    simp only [Protection.check, Results.bind_eq_ok_iff,
      Protection.require_eq_ok_iff, beq_iff_eq] at hCheck
    rcases hCheck with ⟨-, -, -, hName, -⟩
    exact hName.symm

/- The finished types of a draft follow those of a graph. -/
theorem types_of_registerFinished
    {decorator? : Option Decorator}
    {draft : Draft}
    {graph last : TypeGraph}
    (h : draft.foldlM (registerFinished decorator?) graph =
      .ok last) :
    graph.types ⊆ last.types ∧
      ∀ entry ∈ draft, ∃ type,
        finished decorator? entry = .ok type ∧
          .defined type ∈ last.types := by
  induction draft generalizing graph with
  | nil =>
      cases h
      exact ⟨List.Subset.refl _, by simp⟩
  | cons entry rest ih =>
      rw [List.foldlM_cons] at h
      rcases Results.bind_eq_ok_iff.1 h with
        ⟨next, hNext, hRest⟩
      rcases Results.bind_eq_ok_iff.1 hNext with
        ⟨type, hType, hRegister⟩
      rcases TypeGraph.register_eq_ok_iff.1 hRegister with
        ⟨-, -, hFree, rfl⟩
      rcases ih hRest with ⟨hBefore, hLater⟩
      refine
        ⟨fun known hKnown =>
          hBefore (List.mem_append_left _ hKnown), ?_⟩
      intro other hOther
      rcases List.mem_cons.1 hOther with rfl | hMem
      · exact ⟨type, hType, hBefore (by simp [TypeGraph.add])⟩
      · exact hLater other hMem

end Pass

------------------------------------------------------------
-- Schemas
------------------------------------------------------------

namespace Schema

variable {schema : Schema}
variable {name : String} {Property : TypeDef → Prop}

/- The types of a draft are those of the schema, finished. -/
theorem exists_finished_of_build
    {pass : Pass}
    {decorator? : Option Decorator}
    {draft : Draft}
    (hDraft : pass.settle = .ok draft)
    (hBuild : pass.build decorator? = .ok schema)
    {entry : DraftEntry}
    (hEntry : entry ∈ draft) :
    ∃ type, Pass.finished decorator? entry = .ok type ∧
      schema.lookup entry.type.name = some (.defined type) := by
  rcases Pass.build_decorated_eq_ok_iff.1 hBuild with
    ⟨settled, graph, hSettled, -, hGraph, hAssemble⟩
  rcases Pass.assemble_eq_ok_iff.1 hAssemble with ⟨rfl, -⟩
  rw [Draft.settle_eq] at hDraft
  cases hDraft.symm.trans hSettled
  rcases (Pass.types_of_registerFinished hGraph).2 entry hEntry
    with ⟨type, hType, hMem⟩
  refine ⟨type, hType, ?_⟩
  rw [← Pass.name_of_finished hType]
  exact TypeGraph.lookup_of_mem hMem

/-
  What a type of a pass has, it has in the schema as well, if
  finishing it makes no difference.
-/
theorem exists_of_build
    {pass : Pass}
    {decorator? : Option Decorator}
    (hKept : TypeDef.KeptByExtension Property)
    (hFinished : ∀ {entry type},
      Pass.finished decorator? entry = .ok type →
      Property entry.type → Property type)
    (hBuild : pass.build decorator? = .ok schema)
    (hPass : pass.draft.Has name Property) :
    ∃ type, schema.lookup name = some (.defined type) ∧
      Property type := by
  rcases Pass.build_decorated_eq_ok_iff.1 hBuild with
    ⟨draft, graph, hDraft, -⟩
  rcases Draft.Has.settleKinds hKept hPass hDraft with
    ⟨entry, hEntry, hProperty⟩
  have hSettled : pass.settle = .ok draft :=
    (Draft.settle_eq pass).trans hDraft
  rcases exists_finished_of_build hSettled hBuild
      (List.mem_of_find?_eq_some hEntry) with
    ⟨type, hType, hLookup⟩
  rw [Draft.name_of_find? hEntry] at hLookup
  exact ⟨type, hLookup, hFinished hType hProperty⟩

end Schema

end GraphQL
