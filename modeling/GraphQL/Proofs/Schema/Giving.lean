import GraphQL.Proofs.Schema.Lasting

/-
  What definitions and extensions give to types.

  An extension gives something to the type that it extends, now
  or at the end of the pass. If further extensions keep it, the
  type of that name has it in the schema.

  Key definitions include:
    * `TypeDef.GivenBy`
    * `Draft.Stage.Gives`: a type has a property, or will have it

  Main declarations:
    * `Draft.Stage.gives_of_type`, `Draft.Stage.gives_of_extension`
    * `Draft.Stage.Gives.settleKinds`
    * `Schema.exists_of_gives`
-/

------------------------------------------------------------
-- Drafts
------------------------------------------------------------

namespace GraphQL

/- What an extension gives to every type that it extends. -/
def TypeDef.GivenBy
    (Property : TypeDef → Prop)
    (waiting : SourceLocation × TypeExtension) : Prop :=
  ∀ {type next : TypeDef},
    TypeDef.Extends waiting.1 waiting.2 type next →
    Property next

namespace Draft

variable {draft next : Draft} {file : Option String}
variable {name : String} {Property : TypeDef → Prop}

/- A type of a name has a property, or will be given it. -/
def Stage.Gives
    (stage : Stage)
    (name : String)
    (Property : TypeDef → Prop) : Prop :=
  Draft.Has stage.1 name Property ∨
    ∃ waiting ∈ stage.2, waiting.2.name = name ∧
      TypeDef.GivenBy Property waiting

/- An extension that is applied gives what it gives. -/
theorem has_of_applies
    {waiting : SourceLocation × TypeExtension}
    (h : Applies waiting draft next)
    (hGiven : TypeDef.GivenBy Property waiting) :
    next.Has waiting.2.name Property := by
  rcases h with ⟨-, found, type, hFound, hType, rfl⟩
  exact
    ⟨_, find?_replace_self (Applies.name_eq hFound hType) hFound,
      hGiven hType⟩

/- What waits goes on waiting while documents are taken. -/
theorem mem_waiting_of_takeStage
    {waiting : SourceLocation × TypeExtension}
    {definition : TypeSystemDefinition}
    {stage stage' : Stage}
    (h : waiting ∈ stage.2)
    (hNext : takeStage file stage definition = .ok stage') :
    waiting ∈ stage'.2 := by
  cases takeStage_eq_ok_iff.1 hNext with
  | waits => exact List.mem_append_left _ h
  | type | applied | schema | directive => exact h

theorem Stage.Gives.takeStage
    {definition : TypeSystemDefinition}
    {stage stage' : Stage}
    (hKept : TypeDef.KeptByExtension Property)
    (h : stage.Gives name Property)
    (hNext : Draft.takeStage file stage definition =
      .ok stage') :
    stage'.Gives name Property := by
  rcases h with hHas | ⟨waiting, hWaiting, hParts⟩
  · exact .inl (hHas.takeStage hKept hNext)
  · exact .inr
      ⟨waiting, mem_waiting_of_takeStage hWaiting hNext, hParts⟩

/- A type is defined with what its definition says. -/
theorem Stage.gives_of_type
    {definition : TypeDefinition}
    {stage stage' : Stage}
    (hNext : Draft.takeStage file stage (.type definition) =
      .ok stage')
    (hGiven : ∀ type,
      TypeDef.ofDefinition (.ofSchema file definition.position)
        definition = .ok type → Property type) :
    stage'.Gives definition.name Property := by
  cases takeStage_eq_ok_iff.1 hNext with
  | @type _ type _ hType hDraft =>
      rcases define_eq_ok_iff.1 hDraft with ⟨-, -, hFree, rfl⟩
      have hName : type.name = definition.name :=
        (TypeDef.of_ofDefinition hType).1
      refine .inl ⟨⟨type, true⟩, ?_, hGiven type hType⟩
      rw [find?_append, ← hName, hFree, Option.none_or]
      simp

/- An extension is applied, or it waits. -/
theorem Stage.gives_of_extension
    {extension : TypeExtension}
    {stage stage' : Stage}
    (hNext : Draft.takeStage file stage (.extension extension) =
      .ok stage')
    (hGiven : TypeDef.GivenBy Property
      (.ofSchema file extension.position, extension)) :
    stage'.Gives extension.name Property := by
  cases takeStage_eq_ok_iff.1 hNext with
  | applied hApplies =>
      exact .inl (has_of_applies hApplies hGiven)
  | waits =>
      exact .inr
        ⟨_, List.mem_append_right _ (List.mem_singleton.2 rfl),
          rfl, hGiven⟩

/- In the end the type has what was given. -/
theorem Stage.Gives.settleKinds
    {stage : Stage}
    (hKept : TypeDef.KeptByExtension Property)
    (h : stage.Gives name Property)
    (hNext : Draft.settleKinds stage = .ok next) :
    next.Has name Property := by
  rcases h with hHas | ⟨waiting, hWaiting, rfl, hGiven⟩
  · exact hHas.settleKinds hKept hNext
  · have hMem : waiting ∈
        (Pass.empty.atStage stage []).settlingList :=
      (Pass.settlingList_perm _).mem_iff.2 hWaiting
    exact Results.foldlM_reaches hMem
      (fun _ _ hApplied =>
        has_of_applies (settleOne_eq_ok_iff.1 hApplied) hGiven)
      (fun _ _ _ hApplied hHas =>
        hHas.applies hKept (settleOne_eq_ok_iff.1 hApplied))
      hNext

end Draft

------------------------------------------------------------
-- Schemas
------------------------------------------------------------

/- A schema has the types of its pass, if nothing decorates. -/
theorem Schema.exists_of_gives
    {pass : Pass}
    {schema : Schema}
    {name : String}
    {Property : TypeDef → Prop}
    (hKept : TypeDef.KeptByExtension Property)
    (hBuild : pass.build none = .ok schema)
    (hPass : pass.stage.Gives name Property) :
    ∃ type, schema.lookup name = some (.defined type) ∧
      Property type := by
  rcases Pass.build_decorated_eq_ok_iff.1 hBuild with
    ⟨draft, -, hDraft, -⟩
  rcases hPass.settleKinds hKept hDraft with
    ⟨entry, hEntry, hProperty⟩
  rcases exists_finished_of_build
      ((Draft.settle_eq pass).trans hDraft) hBuild
      (List.mem_of_find?_eq_some hEntry) with
    ⟨type, hType, hLookup⟩
  cases hType
  rw [Draft.name_of_find? hEntry] at hLookup
  exact ⟨entry.type, hLookup, hProperty⟩

end GraphQL
