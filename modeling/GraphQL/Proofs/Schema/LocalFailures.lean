import GraphQL.Proofs.Schema.Passes

/-
  Failures that concern a single definition or type.

  How types fit together is looked at when all of them are
  there. Until then a pass fails for what is wrong with one
  definition, extension or type.

  Key definitions include:
    * `BuildError.IsLocal`

  Main declarations:
    * `Pass.load_fails`: taking documents fails locally
    * `Pass.build_fails`: what else the end of a pass fails for
-/

------------------------------------------------------------
-- Members
------------------------------------------------------------

namespace GraphQL

/- A failure about no other type than the one at hand. -/
def BuildError.IsLocal : BuildError → Prop
| rootNotObject _ _ _ => False
| typeErrors _ => False
| _ => True

namespace Declared

variable {type field : String} {location : SourceLocation}

theorem arguments_fails
    (definitions : List InputValueDefinition) :
    Results.Fails BuildError.IsLocal
      (arguments type field location definitions) := by
  apply Results.Fails.foldlM
  intro done definition
  simp only [argument]
  split
  · exact .error trivial
  · exact .ok _

theorem inputFields_fails
    (definitions : List InputValueDefinition) :
    Results.Fails BuildError.IsLocal
      (inputFields type location definitions) := by
  apply Results.Fails.foldlM
  intro done definition
  simp only [inputField]
  split
  · exact .error trivial
  · split
    · exact .error trivial
    · exact .ok _

theorem fields_fails (definitions : List FieldDefinition) :
    Results.Fails BuildError.IsLocal
      (fields type location definitions) := by
  apply Results.Fails.foldlM
  intro done definition
  simp only [Declared.field]
  split
  · exact .error trivial
  · split
    · exact .error trivial
    · exact (arguments_fails _).bind fun _ _ => .ok _

theorem interfaces_fails
    (kind : TypeKind)
    (done names : List String) :
    Results.Fails BuildError.IsLocal
      (interfaces type kind location done names) := by
  apply Results.Fails.foldlM
  intro done name
  unfold interface
  split
  · exact .error trivial
  · split
    · exact .error trivial
    · exact .ok _

theorem members_fails
    (done : Entries SourceLocation)
    (names : List String) :
    Results.Fails BuildError.IsLocal
      (members type location done names) := by
  refine Results.Fails.bind ?_ fun _ _ => .ok _
  apply Results.Fails.foldlM
  intro done name
  unfold member
  split
  · exact .error trivial
  · exact .ok _

theorem values_fails
    (enumLocation : SourceLocation)
    (done : List EnumValue)
    (definitions : List EnumValueDefinition) :
    Results.Fails BuildError.IsLocal
      (values type enumLocation location done definitions) := by
  apply Results.Fails.foldlM
  intro done definition
  simp only [value]
  split
  · exact .error trivial
  · exact .ok _

theorem extendBody_fails
    {α : Type}
    (location : α → SourceLocation)
    (body additions : Entries α) :
    Results.Fails BuildError.IsLocal
      (extendBody type location body additions) := by
  apply Results.Fails.foldlM
  intro body entry
  dsimp only
  split
  · exact .error trivial
  · exact .ok _

end Declared

------------------------------------------------------------
-- Types
------------------------------------------------------------

/- A definition fails for one of its members. -/
theorem TypeDef.ofDefinition_fails
    (location : SourceLocation)
    (definition : TypeDefinition) :
    Results.Fails BuildError.IsLocal
      (ofDefinition location definition) := by
  simp only [ofDefinition]
  split
  · exact .ok _
  · exact (Declared.fields_fails _).bind fun _ _ =>
      (Declared.interfaces_fails _ _ _).bind fun _ _ => .ok _
  · exact (Declared.fields_fails _).bind fun _ _ =>
      (Declared.interfaces_fails _ _ _).bind fun _ _ => .ok _
  · exact (Declared.members_fails _ _).bind fun _ _ => .ok _
  · split
    · exact .error trivial
    · exact (Declared.values_fails _ _ _).bind fun _ _ => .ok _
  · exact (Declared.inputFields_fails _).bind fun _ _ => .ok _

theorem FieldShape.extend_fails
    (shape : FieldShape)
    (type : String)
    (kind : TypeKind)
    (location : SourceLocation)
    (interfaces : List String)
    (fields : List FieldDefinition) :
    Results.Fails BuildError.IsLocal
      (shape.extend type kind location interfaces fields) :=
  (Declared.interfaces_fails _ _ _).bind fun _ _ =>
    (Declared.fields_fails _).bind fun _ _ =>
      (Declared.extendBody_fails _ _ _).bind fun _ _ => .ok _

/- So does an extension, or it is of another kind. -/
theorem TypeDef.extend_fails
    (type : TypeDef)
    (location : SourceLocation)
    (extension : TypeExtension) :
    Results.Fails BuildError.IsLocal
      (type.extend location extension) := by
  simp only [TypeDef.extend]
  split
  · exact .ok _
  · exact (FieldShape.extend_fails _ _ _ _ _ _).bind
      fun _ _ => .ok _
  · exact (FieldShape.extend_fails _ _ _ _ _ _).bind
      fun _ _ => .ok _
  · exact (Declared.members_fails _ _).bind fun _ _ => .ok _
  · exact (Declared.values_fails _ _ _).bind fun _ _ => .ok _
  · exact (Declared.inputFields_fails _).bind fun _ _ =>
      (Declared.extendBody_fails _ _ _).bind fun _ _ => .ok _
  · exact .error trivial

/- A type is registered unless its own name forbids it. -/
theorem TypeGraph.register_fails
    (graph : TypeGraph)
    (type : NamedType) :
    Results.Fails BuildError.IsLocal (graph.register type) := by
  unfold register
  split
  · exact .error trivial
  · split
    · exact .error trivial
    · split
      · exact .error trivial
      · exact .ok _

/- A flaw is one of a single type. -/
theorem TypeGraph.isLocal_of_flawed?
    {graph : TypeGraph}
    {error : BuildError}
    (h : graph.flawed? = some error) : error.IsLocal := by
  rcases List.exists_of_findSome?_eq_some h with
    ⟨type, -, hType⟩
  cases type with
  | builtin scalar => cases hType
  | defined type =>
      rcases Option.map_eq_some_iff.1 hType with ⟨flaw, -, rfl⟩
      trivial

------------------------------------------------------------
-- Passes
------------------------------------------------------------

namespace Draft

theorem define_fails (draft : Draft) (type : TypeDef) :
    Results.Fails BuildError.IsLocal (draft.define type) := by
  simp only [define]
  split
  · exact .error trivial
  · split
    · exact .error trivial
    · split
      · exact .error trivial
      · exact .ok _

theorem extend?_fails
    (draft : Draft)
    (location : SourceLocation)
    (extension : TypeExtension) :
    Results.Fails BuildError.IsLocal
      (draft.extend? location extension) := by
  simp only [extend?]
  split
  · exact .error trivial
  · split
    · exact .ok _
    · exact (TypeDef.extend_fails _ _ _).bind fun _ _ => .ok _

end Draft

namespace Pass

variable {pass : Pass}

theorem settle_fails (pass : Pass) :
    Results.Fails BuildError.IsLocal pass.settle := by
  apply Results.Fails.foldlM
  intro draft waiting
  refine (Draft.extend?_fails _ _ _).bind fun found? _ => ?_
  cases found? with
  | none => exact .error trivial
  | some found => exact .ok _

theorem declareRoot_fails
    (location : SourceLocation)
    (roots : Roots)
    (operation : OperationKind)
    (type? : Option String) :
    Results.Fails BuildError.IsLocal
      (declareRoot location roots operation type?) := by
  unfold declareRoot
  split
  · exact .ok _
  · dsimp only
    split
    · exact .error trivial
    · exact .ok _

theorem checkDistinct_fails
    (roots : Roots)
    (first second : OperationKind) :
    Results.Fails BuildError.IsLocal
      (checkDistinct roots first second) := by
  unfold checkDistinct
  split
  · split
    · exact .error trivial
    · exact .ok _
  · exact .ok _

theorem declareRoots_fails
    (location : SourceLocation)
    (block : SchemaBlock) :
    Results.Fails BuildError.IsLocal
      (pass.declareRoots location block) := by
  unfold declareRoots
  split
  · exact .error trivial
  · exact (declareRoot_fails _ _ _ _).bind fun _ _ =>
      (declareRoot_fails _ _ _ _).bind fun _ _ =>
      (declareRoot_fails _ _ _ _).bind fun _ _ =>
      (checkDistinct_fails _ _ _).bind fun _ _ =>
      (checkDistinct_fails _ _ _).bind fun _ _ =>
      (checkDistinct_fails _ _ _).bind fun _ _ => .ok _

theorem defineDirective_fails
    (location : SourceLocation)
    (definition : DirectiveDefinition) :
    Results.Fails BuildError.IsLocal
      (pass.defineDirective location definition) := by
  simp only [defineDirective]
  split
  · exact .error trivial
  · split
    · exact .error trivial
    · split
      · exact .error trivial
      · exact .ok _

/- A document fails for one of its definitions. -/
theorem load_fails
    (pass : Pass)
    (file : Option String)
    (document : TypeSystemDocument) :
    Results.Fails BuildError.IsLocal
      (pass.load file document) := by
  apply Results.Fails.foldlM
  intro pass definition
  cases definition with
  | schema block => exact declareRoots_fails _ _
  | type definition =>
      exact (TypeDef.ofDefinition_fails _ _).bind fun _ _ =>
        (Draft.define_fails _ _).bind fun _ _ => .ok _
  | extension extension =>
      refine (Draft.extend?_fails _ _ _).bind
        fun found? _ => ?_
      cases found? with
      | none => exact .ok _
      | some found => exact .ok _
  | directive definition => exact defineDirective_fails _ _

/-
  A graph is not validated, or a root that was declared is no
  object of it.
-/
inductive Rejects (pass : Pass) (graph : TypeGraph) :
    BuildError → Prop where
  | types : Rejects pass graph (.typeErrors graph.errors)
  | root {operation : OperationKind} {ref : RootReference} :
      pass.roots.get? operation = some ref →
      (graph.lookup ref.type).bind NamedType.object? = none →
      Rejects pass graph
        (.rootNotObject operation ref.type ref.location)

/- The parts of a pass are put together, or fit badly. -/
theorem assemble_fails (graph : TypeGraph) :
    Results.Fails
      (fun error => error.IsLocal ∨ pass.Rejects graph error)
      (pass.assemble graph) := by
  have hValidate : Results.Fails
      (fun error => error.IsLocal ∨ pass.Rejects graph error)
      graph.validate := by
    unfold TypeGraph.validate
    split
    · next error hFlawed =>
        exact .error
          (.inl (TypeGraph.isLocal_of_flawed? hFlawed))
    · split
      · exact .ok _
      · exact .error (.inr .types)
  have hRoot : ∀ operation, Results.Fails
      (fun error => error.IsLocal ∨ pass.Rejects graph error)
      (settleRoot graph operation
        (pass.roots.get? operation)) := by
    intro operation
    unfold settleRoot
    split
    · next ref hRef =>
        split
        · exact .ok _
        · next hNone => exact .error (.inr (.root hRef hNone))
    · split
      · exact .ok _
      · exact .ok _
  refine hValidate.bind fun _ _ =>
    (hRoot .query).bind fun query? _ => ?_
  cases query? with
  | none => exact .error (.inl trivial)
  | some query =>
      exact (hRoot .mutation).bind fun _ _ =>
        (hRoot .subscription).bind fun _ _ => .ok _

/-
  Without a decorator a pass ends with a failure that is local,
  or its types are put together and fit badly.
-/
theorem build_fails :
    Results.Fails
      (fun error => error.IsLocal ∨
        ∃ draft graph,
          Draft.settleKinds pass.stage = .ok draft ∧
            draft.foldlM registerEntry .builtin = .ok graph ∧
            pass.Rejects graph error)
      (pass.build none) := by
  intro error hError
  unfold build finish at hError
  rw [Draft.settle_eq] at hError
  cases hDraft : Draft.settleKinds pass.stage with
  | error other =>
      rw [hDraft] at hError
      cases hError
      exact .inl (settle_fails _ _ hDraft)
  | ok draft =>
      have hGraph := materialize_eq none .builtin draft
      have hExpected : checkExpected none draft = .ok () := rfl
      simp only [hDraft, hExpected] at hError
      split at hError
      · next handed other hOther =>
          rw [hOther] at hGraph
          cases hError
          have hRegister : Results.Fails BuildError.IsLocal
              (draft.foldlM registerEntry .builtin) := by
            apply Results.Fails.foldlM
            intro graph entry
            exact TypeGraph.register_fails _ _
          exact .inl (hRegister _ hGraph.symm)
      · next handed graph hOk =>
          rw [hOk] at hGraph
          refine (assemble_fails graph error hError).imp id ?_
          intro hRejects
          exact ⟨draft, graph, rfl, hGraph.symm, hRejects⟩

end Pass

end GraphQL
