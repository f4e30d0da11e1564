import GraphQL.Proofs.Schema.Giving
import GraphQL.Proofs.Schema.Mentions

/-
  The type names that drafts mention.

  The types of a draft bear the names that it started with and
  those that documents define. They mention what they mentioned
  before and what the documents refer to.

  Key definitions include:
    * `Draft.names`
    * `Draft.Stage.Within`: nothing else is mentioned
    * `Draft.Stage.Reaches`: something is, now or later

  Main declarations:
    * `Draft.names_of_takeStages`, `Draft.names_of_settleKinds`
    * `Draft.Stage.Within.settleKinds`
    * `Draft.Stage.Reaches.settleKinds`
-/

------------------------------------------------------------
-- Definitions
------------------------------------------------------------

namespace GraphQL

/- The type names in a definition of a document. -/
def TypeSystemDefinition.mentions
    (definition : TypeSystemDefinition) : List String :=
  (KnownTypeNames.typeSystemDefinitionReferences definition).map
    KnownTypeNames.Reference.name

theorem TypeSystemDefinition.mentions_type
    (definition : TypeDefinition) :
    (type definition).mentions = definition.content.mentions :=
  KnownTypeNames.names_contentReferences _ _

theorem TypeSystemDefinition.mentions_extension
    (added : TypeExtension) :
    (extension added).mentions = added.content.mentions :=
  KnownTypeNames.names_contentReferences _ _

------------------------------------------------------------
-- Names Of Types
------------------------------------------------------------

namespace Draft

variable {draft next : Draft} {file : Option String}

/- The names of the types of a draft. -/
def names (draft : Draft) : List String :=
  draft.map fun entry => entry.type.name

/- Extensions leave the names of a draft as they are. -/
theorem names_of_applies
    {waiting : SourceLocation × TypeExtension}
    (h : Applies waiting draft next) :
    next.names = draft.names :=
  h.map_name_eq

/- A definition of a type adds its name. -/
theorem names_of_takeStage
    {definition : TypeSystemDefinition}
    {stage stage' : Stage}
    (h : takeStage file stage definition = .ok stage') :
    names stage'.1 = names stage.1 ++
      KnownTypeNames.definedNames [definition] := by
  cases takeStage_eq_ok_iff.1 h with
  | type hType hDraft =>
      rcases define_eq_ok_iff.1 hDraft with ⟨-, -, -, rfl⟩
      have hName := (TypeDef.of_ofDefinition hType).1
      simp [names, KnownTypeNames.definedNames, hName]
  | applied hApplies =>
      rw [names_of_applies hApplies]
      simp [KnownTypeNames.definedNames]
  | waits | schema | directive =>
      simp [KnownTypeNames.definedNames]

/- A document adds the names that it defines. -/
theorem names_of_takeStages
    {document : TypeSystemDocument}
    {stage stage' : Stage}
    (h : document.foldlM (takeStage file) stage = .ok stage') :
    names stage'.1 = names stage.1 ++
      KnownTypeNames.definedNames document := by
  induction document generalizing stage with
  | nil =>
      cases h
      simp [KnownTypeNames.definedNames]
  | cons definition rest ih =>
      rw [List.foldlM_cons] at h
      rcases Results.bind_eq_ok_iff.1 h with
        ⟨middle, hMiddle, hRest⟩
      have hDefined :
          KnownTypeNames.definedNames (definition :: rest) =
            KnownTypeNames.definedNames [definition] ++
              KnownTypeNames.definedNames rest := by
        unfold KnownTypeNames.definedNames
        rw [← List.filterMap_append, List.singleton_append]
      rw [ih hRest, names_of_takeStage hMiddle, hDefined,
        List.append_assoc]

theorem names_of_settleKinds
    {stage : Stage}
    (h : settleKinds stage = .ok draft) :
    draft.names = names stage.1 := by
  have hStep : ∀ (draft : Draft) waiting next,
      Pass.settleOne draft waiting = .ok next →
      draft.names = names stage.1 →
      next.names = names stage.1 :=
    fun _ _ _ hNext hNames =>
      (names_of_applies (settleOne_eq_ok_iff.1 hNext)).trans
        hNames
  exact Results.foldlM_keeps hStep h rfl

------------------------------------------------------------
-- Nothing Else Is Mentioned
------------------------------------------------------------

/- All that a draft mentions is known. -/
def Within (Known : String → Prop) (draft : Draft) : Prop :=
  ∀ entry ∈ draft, ∀ name ∈ entry.type.mentions, Known name

/- So is all that the extensions that wait mention. -/
structure Stage.Within (Known : String → Prop) (stage : Stage) :
    Prop where
  draft : Draft.Within Known stage.1
  waiting : ∀ waiting ∈ stage.2,
    ∀ name ∈ waiting.2.content.mentions, Known name

variable {Known : String → Prop}

theorem Within.applies
    {waiting : SourceLocation × TypeExtension}
    (h : draft.Within Known)
    (hKnown : ∀ name ∈ waiting.2.content.mentions, Known name)
    (hNext : Applies waiting draft next) :
    next.Within Known := by
  refine hNext.forall_mem h ?_
  intro entry hEntry type _ hType name hName
  rcases hType.mentions.1 name hName with hBefore | hAdded
  · exact h entry hEntry name hBefore
  · exact hKnown name hAdded

/- A document of known names mentions nothing else. -/
theorem Stage.Within.takeStage
    {definition : TypeSystemDefinition}
    {stage stage' : Stage}
    (h : stage.Within Known)
    (hKnown : ∀ name ∈ definition.mentions, Known name)
    (hNext : Draft.takeStage file stage definition =
      .ok stage') :
    stage'.Within Known := by
  cases takeStage_eq_ok_iff.1 hNext with
  | type hType hDraft =>
      rw [TypeSystemDefinition.mentions_type] at hKnown
      exact
        ⟨forall_mem_of_define hDraft h.draft fun name hName =>
          hKnown name
            ((TypeDef.mentions_ofDefinition hType).1 hName),
          h.waiting⟩
  | applied hApplies =>
      rw [TypeSystemDefinition.mentions_extension] at hKnown
      exact ⟨h.draft.applies hKnown hApplies, h.waiting⟩
  | waits =>
      rw [TypeSystemDefinition.mentions_extension] at hKnown
      exact
        ⟨h.draft, List.forall_mem_append.2
          ⟨h.waiting, List.forall_mem_singleton.2 hKnown⟩⟩
  | schema | directive => exact h

theorem Stage.Within.settleKinds
    {stage : Stage}
    (h : stage.Within Known)
    (hNext : Draft.settleKinds stage = .ok next) :
    next.Within Known := by
  have hStep : ∀ waiting ∈
        (Pass.empty.atStage stage []).settlingList,
      ∀ (draft : Draft) next,
      Pass.settleOne draft waiting = .ok next →
      draft.Within Known → next.Within Known := by
    intro waiting hWaiting draft next hNext hDraft
    have hMem :=
      (Pass.settlingList_perm _).mem_iff.1 hWaiting
    exact hDraft.applies (h.waiting waiting hMem)
      (settleOne_eq_ok_iff.1 hNext)
  exact Results.foldlM_keeps_of_mem hStep hNext h.draft

------------------------------------------------------------
-- Nothing Is Lost
------------------------------------------------------------

/- Some type of a draft mentions a name. -/
def Mentions (draft : Draft) (name : String) : Prop :=
  ∃ type, draft.Has type fun type => name ∈ type.mentions

/- Some type mentions a name, or an extension that waits. -/
def Stage.Reaches (stage : Stage) (name : String) : Prop :=
  Draft.Mentions stage.1 name ∨
    ∃ waiting ∈ stage.2, waiting.2.content.NamesArguments ∧
      name ∈ waiting.2.content.mentions

variable {name : String}

/- Extensions keep what a type mentions. -/
theorem mentions_keptByExtension :
    TypeDef.KeptByExtension fun type => name ∈ type.mentions :=
  fun hExtends hName => hExtends.mentions.2.1 hName

/- An extension gives its mentions to the type it extends. -/
theorem givenBy_of_mentions
    {waiting : SourceLocation × TypeExtension}
    (hNames : waiting.2.content.NamesArguments)
    (hName : name ∈ waiting.2.content.mentions) :
    TypeDef.GivenBy (fun type => name ∈ type.mentions) waiting :=
  fun hExtends => hExtends.mentions.2.2 hNames hName

/- A stage keeps reaching a name. -/
theorem Stage.Reaches.takeStage
    {definition : TypeSystemDefinition}
    {stage stage' : Stage}
    (h : stage.Reaches name)
    (hNext : Draft.takeStage file stage definition =
      .ok stage') :
    stage'.Reaches name := by
  rcases h with ⟨type, hHas⟩ | ⟨waiting, hWaiting, hParts⟩
  · exact .inl
      ⟨type, hHas.takeStage mentions_keptByExtension hNext⟩
  · exact .inr
      ⟨waiting, mem_waiting_of_takeStage hWaiting hNext, hParts⟩

/- A type is defined with all that its definition mentions. -/
theorem Stage.reaches_of_type
    {definition : TypeDefinition}
    {stage stage' : Stage}
    (hNext : Draft.takeStage file stage (.type definition) =
      .ok stage')
    (hNames : definition.content.NamesArguments)
    (hName : name ∈ definition.content.mentions) :
    stage'.Reaches name := by
  cases takeStage_eq_ok_iff.1 hNext with
  | @type _ type _ hType hDraft =>
      rcases define_eq_ok_iff.1 hDraft with ⟨-, -, hFree, rfl⟩
      have hMentioned : name ∈ type.mentions := by
        rw [(TypeDef.mentions_ofDefinition hType).2 hNames]
        exact hName
      refine .inl ⟨type.name, ⟨type, true⟩, ?_, hMentioned⟩
      rw [find?_append, hFree, Option.none_or]
      simp

/- An extension is applied, or it waits with what it mentions. -/
theorem Stage.reaches_of_extension
    {extension : TypeExtension}
    {stage stage' : Stage}
    (hNext : Draft.takeStage file stage (.extension extension) =
      .ok stage')
    (hNames : extension.content.NamesArguments)
    (hName : name ∈ extension.content.mentions) :
    stage'.Reaches name := by
  cases takeStage_eq_ok_iff.1 hNext with
  | applied hApplies =>
      exact .inl
        ⟨_, has_of_applies hApplies
          (givenBy_of_mentions hNames hName)⟩
  | waits =>
      exact .inr
        ⟨_, List.mem_append_right _ (List.mem_singleton.2 rfl),
          hNames, hName⟩

/- What a stage reaches is mentioned in the end. -/
theorem Stage.Reaches.settleKinds
    {stage : Stage}
    (h : stage.Reaches name)
    (hNext : Draft.settleKinds stage = .ok next) :
    next.Mentions name := by
  have hGives : ∃ type,
      stage.Gives type fun type => name ∈ type.mentions := by
    rcases h with ⟨type, hHas⟩ | ⟨waiting, hWaiting, hParts⟩
    · exact ⟨type, .inl hHas⟩
    · exact
        ⟨waiting.2.name, .inr ⟨waiting, hWaiting, rfl,
          givenBy_of_mentions hParts.1 hParts.2⟩⟩
  rcases hGives with ⟨type, hGives⟩
  exact ⟨type, hGives.settleKinds mentions_keptByExtension hNext⟩

end Draft

end GraphQL
