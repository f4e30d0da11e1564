import GraphQL.Proofs.Schema.Passes

/-
  The addresses that specify scalars.

  A scalar is specified by the first of its directives that
  gives an address. With one such directive at most, the order
  of directives does not matter.

  Key definitions include:
    * `TypeSystemDefinition.specifications`: what specifies
      the scalar of a name
    * `TypeDef.Specified`

  Main declarations:
    * `TypeDef.Alike.agrees`
    * `Draft.specified_of_takeStages`
    * `Draft.specifications_le`
-/

------------------------------------------------------------
-- Specifications
------------------------------------------------------------

namespace GraphQL

/- The annotations that specify a type, if it is a scalar. -/
def TypeContent.specifications
    (content : TypeContent)
    (annotations : List Annotation) : List Annotation :=
  match content with
  | .scalar =>
      annotations.filter fun annotation =>
        annotation.name == "specifiedBy"
  | _ => []

/- What specifies the scalar of a name in an extension. -/
def TypeExtension.specifications
    (extension : TypeExtension)
    (name : String) : List Annotation :=
  if extension.name = name then
    extension.content.specifications extension.annotations
  else
    []

/- What specifies the scalar of a name in a definition. -/
def TypeSystemDefinition.specifications (name : String) :
    TypeSystemDefinition → List Annotation
| .type definition =>
    if definition.name = name then
      definition.content.specifications definition.annotations
    else
      []
| .extension added => added.specifications name
| _ => []

namespace TypeDef

/- How often a type is specified, if it is a scalar. -/
def specifications : TypeDef → Nat
| scalar type =>
    type.header.directives.countP fun directive =>
      directive.name == "specifiedBy"
| _ => 0

/- A scalar is specified by the first of its directives. -/
def Specified : TypeDef → Prop
| scalar type =>
    type.specifiedBy =
      AppliedDirective.specifiedBy type.header.directives
| _ => True

end TypeDef

------------------------------------------------------------
-- Order
------------------------------------------------------------

/- At most one directive specifies, wherever it stands. -/
theorem AppliedDirective.specifiedBy_eq_of_perm
    {directives directives' : List AppliedDirective}
    (hPerm : directives.Perm directives')
    (hOnce : (directives.countP fun directive =>
      directive.name == "specifiedBy") ≤ 1) :
    specifiedBy directives = specifiedBy directives' := by
  unfold specifiedBy
  induction hPerm with
  | nil => rfl
  | cons directive _ ih =>
      rw [List.countP_cons] at hOnce
      rw [List.findSome?_cons, List.findSome?_cons,
        ih (by omega)]
  | swap first second rest =>
      rw [List.countP_cons, List.countP_cons] at hOnce
      simp only [List.findSome?_cons]
      by_cases hFirst : first.name = "specifiedBy"
      · have hSecond : second.name ≠ "specifiedBy" := by
          intro hSecond
          simp [hFirst, hSecond] at hOnce
        rw [if_neg hSecond]
      · rw [if_neg hFirst]
  | trans hPerm _ ih ih' =>
      rw [ih hOnce, ih' (hPerm.countP_eq _ ▸ hOnce)]

namespace TypeDef

/- Types that are alike agree if they are specified once. -/
theorem Alike.agrees
    {first second : TypeDef}
    (h : first.Alike second)
    (hFirst : first.Specified)
    (hSecond : second.Specified)
    (hOnce : second.specifications ≤ 1) :
    first.Agrees second := by
  refine ⟨h, ?_⟩
  cases h with
  | scalar hHeader _ _ _ =>
      have hSame := AppliedDirective.specifiedBy_eq_of_perm
        hHeader.directives.symm hOnce
      exact hFirst.trans (hSame.symm.trans hSecond.symm)
  | _ => rfl

------------------------------------------------------------
-- Definitions And Extensions
------------------------------------------------------------

theorem countP_ofAnnotations
    (location : SourceLocation)
    (annotations : List Annotation) :
    ((AppliedDirective.ofAnnotations location
        annotations).countP fun directive =>
      directive.name == "specifiedBy") =
      (annotations.filter fun annotation =>
        annotation.name == "specifiedBy").length := by
  rw [AppliedDirective.ofAnnotations, List.countP_map,
    List.countP_eq_length_filter]
  rfl

/- A type is specified as its definition says. -/
theorem of_ofDefinition
    {location : SourceLocation}
    {definition : TypeDefinition}
    {type : TypeDef}
    (h : ofDefinition location definition = .ok type) :
    type.name = definition.name ∧
      type.Specified ∧
      type.specifications =
        (definition.content.specifications
          definition.annotations).length := by
  cases ofDefinition_eq_ok_iff.1 h with
  | scalar hContent =>
      refine ⟨rfl, rfl, ?_⟩
      rw [hContent]
      exact countP_ofAnnotations location definition.annotations
  | object hContent _ _ =>
      exact ⟨rfl, trivial, by rw [hContent]; rfl⟩
  | interface hContent _ _ _ =>
      exact ⟨rfl, trivial, by rw [hContent]; rfl⟩
  | union hContent _ =>
      exact ⟨rfl, trivial, by rw [hContent]; rfl⟩
  | enum hContent _ _ =>
      exact ⟨rfl, trivial, by rw [hContent]; rfl⟩
  | inputObject hContent _ =>
      exact ⟨rfl, trivial, by rw [hContent]; rfl⟩

/- An extension may specify a type once more. -/
theorem Extends.of_specified
    {location : SourceLocation}
    {extension : TypeExtension}
    {type next : TypeDef}
    (h : type.Extends location extension next) :
    (type.Specified → next.Specified) ∧
      next.specifications = type.specifications +
        (extension.content.specifications
          extension.annotations).length := by
  cases h with
  | @scalar type hContent =>
      rw [hContent]
      refine ⟨?_, ?_⟩
      · intro hType
        have hFirst : type.specifiedBy = _ := hType
        simp only [Specified, ScalarType.extend,
          TypeHeader.extend, hFirst,
          AppliedDirective.specifiedBy, List.findSome?_append]
      · simp only [specifications, ScalarType.extend,
          TypeHeader.extend, List.countP_append,
          countP_ofAnnotations, TypeContent.specifications]
  | object hContent _ _ => exact ⟨id, by rw [hContent]; rfl⟩
  | interface hContent _ _ _ => exact ⟨id, by rw [hContent]; rfl⟩
  | union hContent _ => exact ⟨id, by rw [hContent]; rfl⟩
  | enum hContent _ => exact ⟨id, by rw [hContent]; rfl⟩
  | inputObject hContent _ _ => exact ⟨id, by rw [hContent]; rfl⟩

end TypeDef

------------------------------------------------------------
-- Drafts
------------------------------------------------------------

namespace Draft

variable {draft next last : Draft} {file : Option String}

/- Every scalar is specified by its first directive. -/
def Specified (draft : Draft) : Prop :=
  ∀ entry ∈ draft, entry.type.Specified

/- How often the scalar of a name is specified. -/
def specifications (name : String) (draft : Draft) : Nat :=
  match draft.find? name with
  | some entry => entry.type.specifications
  | none => 0

/- Waiting extensions count for the types that they extend. -/
def stageSpecifications (name : String) (stage : Stage) : Nat :=
  stage.1.specifications name +
    (stage.2.flatMap fun waiting =>
      waiting.2.specifications name).length

theorem specified_nil : Specified [] := by
  simp [Specified]

theorem specified_of_applies
    {waiting : SourceLocation × TypeExtension}
    (h : Applies waiting draft next)
    (hDraft : draft.Specified) : next.Specified :=
  h.forall_mem hDraft fun entry hEntry _ _ hType =>
    hType.of_specified.1 (hDraft entry hEntry)

theorem specifications_of_applies
    {waiting : SourceLocation × TypeExtension}
    (h : Applies waiting draft next)
    (name : String) :
    next.specifications name =
      draft.specifications name +
        (waiting.2.specifications name).length := by
  rcases h with ⟨hBuiltin, entry, type, hEntry, hType, rfl⟩
  have hName := Applies.name_eq hEntry hType
  unfold specifications TypeExtension.specifications
  by_cases hSame : waiting.2.name = name
  · subst hSame
    rw [find?_replace_self hName hEntry, hEntry, if_pos rfl]
    exact hType.of_specified.2
  · have hNe : name ≠ waiting.2.name := fun h => hSame h.symm
    rw [find?_replace_of_ne hName hNe, if_neg hSame]
    rfl

/- A type that is taken is specified as its definition says. -/
theorem of_define
    {definition : TypeDefinition}
    {location : SourceLocation}
    {type : TypeDef}
    (hType : TypeDef.ofDefinition location definition = .ok type)
    (h : draft.define type = .ok next) :
    (draft.Specified → next.Specified) ∧
      ∀ name, next.specifications name ≤
        draft.specifications name +
          (TypeSystemDefinition.specifications name
            (.type definition)).length := by
  rcases TypeDef.of_ofDefinition hType with
    ⟨hName, hSpecified, hCount⟩
  refine ⟨?_, ?_⟩
  · intro hDraft
    exact forall_mem_of_define h hDraft hSpecified
  · rcases define_eq_ok_iff.1 h with ⟨-, -, hFree, rfl⟩
    intro name
    unfold specifications TypeSystemDefinition.specifications
    rw [find?_append]
    cases hFound : draft.find? name with
    | some entry => simp
    | none =>
        by_cases hSame : type.name = name
        · simp [hSame, hCount, ← hName]
        · simp [hSame]

------------------------------------------------------------
-- Runs
------------------------------------------------------------

/- Every definition of a document specifies what it says. -/
theorem of_takeStage
    {definition : TypeSystemDefinition}
    {stage stage' : Stage}
    (h : takeStage file stage definition = .ok stage') :
    (stage.1.Specified → stage'.1.Specified) ∧
      ∀ name, stageSpecifications name stage' ≤
        stageSpecifications name stage +
          (definition.specifications name).length := by
  unfold stageSpecifications
  cases takeStage_eq_ok_iff.1 h with
  | type hType hDraft =>
      rcases of_define hType hDraft with ⟨hSpecified, hCount⟩
      refine ⟨hSpecified, fun name => ?_⟩
      have hName := hCount name
      simp only
      omega
  | applied hApplies =>
      refine ⟨specified_of_applies hApplies, fun name => ?_⟩
      have hCount := specifications_of_applies hApplies name
      simp only [TypeSystemDefinition.specifications]
        at hCount ⊢
      omega
  | waits =>
      refine ⟨id, fun name => ?_⟩
      simp only [List.flatMap_append, List.flatMap_cons,
        List.flatMap_nil, List.length_append,
        List.append_nil, TypeSystemDefinition.specifications]
      omega
  | schema | directive => exact ⟨id, fun name => by omega⟩

theorem specified_of_settleKinds
    {stage : Stage}
    (h : settleKinds stage = .ok last)
    (hStage : stage.1.Specified) : last.Specified := by
  refine Results.foldlM_keeps ?_ h hStage
  intro draft waiting next hNext hDraft
  exact specified_of_applies (settleOne_eq_ok_iff.1 hNext) hDraft

/- Scalars stay specified by their first directives. -/
theorem specified_of_takeStages
    {document : TypeSystemDocument}
    {stage stage' : Stage}
    (h : document.foldlM (takeStage file) stage = .ok stage')
    (hStage : stage.1.Specified) : stage'.1.Specified := by
  have hStep : ∀ stage definition next,
      takeStage file stage definition = .ok next →
      stage.1.Specified → next.1.Specified :=
    fun _ _ _ hNext => (of_takeStage hNext).1
  exact Results.foldlM_keeps hStep h hStage

/- Scalars are specified as often as definitions say. -/
theorem specifications_settleKinds_le
    {stage : Stage}
    (h : settleKinds stage = .ok last)
    (name : String) :
    last.specifications name ≤ stageSpecifications name stage := by
  have hCount := Results.foldlM_measure_le
    (specifications name)
    (fun waiting => waiting.2.specifications name)
    (fun draft waiting next hNext => Nat.le_of_eq
      (specifications_of_applies (settleOne_eq_ok_iff.1 hNext)
        name)) h
  have hPerm := ((Pass.settlingList_perm
    (Pass.empty.atStage stage [])).flatMap_right fun waiting =>
      waiting.2.specifications name).length_eq
  rw [hPerm] at hCount
  exact hCount

/- Scalars are specified as often as a document says. -/
theorem specifications_le
    {document : TypeSystemDocument}
    {stage : Stage}
    (h : document.foldlM (takeStage file) ([], []) = .ok stage)
    (hSettled : settleKinds stage = .ok last)
    (name : String) :
    last.specifications name ≤
      (document.flatMap
        (TypeSystemDefinition.specifications name)).length := by
  have hCount := Results.foldlM_measure_le
    (stageSpecifications name)
    (TypeSystemDefinition.specifications name)
    (fun _ _ _ hNext => (of_takeStage hNext).2 name) h
  have hLast := specifications_settleKinds_le hSettled name
  have hNone : stageSpecifications name ([], []) = 0 := rfl
  omega

end Draft

end GraphQL
