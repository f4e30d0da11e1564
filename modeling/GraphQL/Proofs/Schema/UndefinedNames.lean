import GraphQL.Proofs.Schema.Closed
import GraphQL.Proofs.Schema.DraftMentions

/-
  Errors about undefined names.

  Validation reports a name as undefined only if some type of
  the graph mentions it and no type bears it. In a closed graph
  there is a type for every name that is mentioned.

  Key definitions include:
    * `TypeError.undefinedName?`
    * `TypeGraph.Mentions`, `TypeGraph.Explains`

  Main declarations:
    * `TypeGraph.explains_errors`
    * `TypeGraph.Closed.contains`
-/

------------------------------------------------------------
-- Errors Of Graphs
------------------------------------------------------------

namespace GraphQL

/- The undefined name that an error is about. -/
def TypeError.undefinedName? : TypeError → Option String
| .undefinedType _ name => some name
| .implementsUndefined _ _ interface => some interface
| _ => none

/- The type names in a type of a graph. -/
def NamedType.mentions : NamedType → List String
| .builtin _ => []
| .defined type => type.mentions

namespace TypeGraph

variable {graph : TypeGraph}

/- Some type of a graph mentions a name. -/
def Mentions (graph : TypeGraph) (name : String) : Prop :=
  ∃ type ∈ graph.types, name ∈ type.mentions

/-
  Undefined names in errors are mentioned in the graph and
  borne by no type of it.
-/
def Explains (graph : TypeGraph) (errors : List TypeError) :
    Prop :=
  ∀ error ∈ errors, ∀ name,
    error.undefinedName? = some name →
    graph.lookup name = none ∧ graph.Mentions name

theorem Explains.nil : graph.Explains [] := by
  intro error hError
  cases hError

theorem explains_append {first second : List TypeError} :
    graph.Explains (first ++ second) ↔
      graph.Explains first ∧ graph.Explains second :=
  List.forall_mem_append

theorem explains_flatMap
    {α : Type}
    {items : List α}
    {errors : α → List TypeError} :
    graph.Explains (items.flatMap errors) ↔
      ∀ item ∈ items, graph.Explains (errors item) := by
  simp only [Explains, List.mem_flatMap]
  constructor
  · intro h item hItem error hError
    exact h error ⟨item, hItem, hError⟩
  · rintro h error ⟨item, hItem, hError⟩
    exact h item hItem error hError

/- Errors about other things need no explanation. -/
theorem explains_of_other
    {errors : List TypeError}
    (h : ∀ error ∈ errors, error.undefinedName? = none) :
    graph.Explains errors := by
  intro error hError name hName
  rw [h error hError] at hName
  cases hName

/- A reference to an undefined name is one that is mentioned. -/
theorem explains_referenceErrors
    {ref : TypeRef}
    {problem? : NamedType → Option TypeError}
    (hProblem : ∀ type error, problem? type = some error →
      error.undefinedName? = none)
    (hMentions : graph.Mentions ref.innermost) :
    graph.Explains (graph.referenceErrors ref problem?) := by
  unfold referenceErrors
  split
  · next type hLookup =>
      apply explains_of_other
      intro error hError
      exact hProblem type error (Option.mem_toList.1 hError)
  · next hLookup =>
      intro error hError name hName
      rw [List.mem_singleton.1 hError] at hName
      cases hName
      exact ⟨hLookup, hMentions⟩

theorem explains_argumentErrors
    {name : String}
    {argument : InputValue}
    (hMentions : graph.Mentions argument.type.innermost) :
    graph.Explains (graph.argumentErrors name argument) := by
  apply explains_referenceErrors ?_ hMentions
  intro type error hError
  split at hError <;> cases hError
  rfl

theorem explains_inputFieldErrors
    {parent name : String}
    {field : InputValue}
    (hMentions : graph.Mentions field.type.innermost) :
    graph.Explains (graph.inputFieldErrors parent name field) := by
  apply explains_referenceErrors ?_ hMentions
  intro type error hError
  split at hError <;> cases hError
  rfl

/- Errors of a field are about what the field mentions. -/
theorem explains_fieldErrors
    {parent name : String}
    {field : OutputField}
    (hMentions : ∀ other ∈ field.mentions,
      graph.Mentions other) :
    graph.Explains (graph.fieldErrors parent name field) := by
  unfold OutputField.mentions at hMentions
  rw [List.forall_mem_cons] at hMentions
  unfold fieldErrors
  simp only [explains_append, explains_flatMap]
  constructor
  · apply explains_referenceErrors ?_ hMentions.1
    intro type error hError
    split at hError <;> cases hError
    rfl
  · intro entry hEntry
    exact explains_argumentErrors
      (hMentions.2 _ (List.mem_map_of_mem hEntry))

/- A member that is undefined is one that is listed. -/
theorem explains_memberErrors
    {union : UnionType}
    (hMentions : ∀ member ∈ union.listed,
      graph.Mentions member) :
    graph.Explains
      (union.members.filterMap (graph.memberError? union)) := by
  intro error hError name hName
  rcases List.mem_filterMap.1 hError with
    ⟨member, hMember, hFound⟩
  have hListed : member ∈ union.listed := by
    simpa [UnionType.members] using hMember
  unfold memberError? at hFound
  split at hFound
  · next hLookup =>
      cases hFound
      cases hName
      exact ⟨hLookup, hMentions _ hListed⟩
  · cases hFound
  · cases hFound
    cases hName

end TypeGraph

------------------------------------------------------------
-- Errors Of Interfaces
------------------------------------------------------------

namespace Implementor

variable {graph : TypeGraph} {self : Implementor}

/- Fields that differ are no undefined names. -/
theorem explains_shapeErrors (interface : InterfaceType) :
    graph.Explains (self.shapeErrors graph interface) := by
  apply TypeGraph.explains_of_other
  intro error hError
  simp only [shapeErrors, List.mem_flatMap] at hError
  rcases hError with ⟨entry, -, hError⟩
  split at hError
  · simp only [fieldErrors, argumentErrors, extraArgumentErrors,
      List.mem_append, List.mem_filterMap] at hError
    rcases hError with
      (⟨argument, -, hError⟩ | ⟨argument, -, hError⟩) | hError
    · split at hError
      · cases hError
        rfl
      · split at hError <;> cases hError
        rfl
    · split at hError <;> cases hError
      rfl
    · split at hError
      · cases hError
      · rw [List.mem_singleton.1 hError]
        rfl
  · rw [List.mem_singleton.1 hError]
    rfl

theorem explains_missingErrors
    (declared path : List String)
    (interface : InterfaceType) :
    graph.Explains
      (self.missingErrors declared path interface) := by
  apply TypeGraph.explains_of_other
  intro error hError
  rcases List.mem_map.1 hError with ⟨name, -, rfl⟩
  rfl

/- Names that are checked one by one are mentioned names. -/
theorem explains_checkEach
    {check : InterfaceType → List String →
      List TypeError × List String}
    (hCheck : ∀ type, .defined (.interface type) ∈ graph.types →
      ∀ verified, graph.Explains (check type verified).1)
    {names : List String}
    (hNames : ∀ name ∈ names, graph.Mentions name)
    (verified : List String) :
    graph.Explains
      (checkEach graph self check names verified).1 := by
  induction names generalizing verified with
  | nil => exact .nil
  | cons name rest ih =>
      rw [List.forall_mem_cons] at hNames
      by_cases hKnown : name ∈ verified
      · rw [checkEach, if_pos (by simpa using hKnown)]
        exact ih hNames.2 verified
      · rw [checkEach_cons hKnown]
        refine TypeGraph.explains_append.2 ⟨?_, ih hNames.2 _⟩
        unfold checkOne
        split
        · next type hLookup =>
            exact hCheck type (TypeGraph.mem_of_lookup hLookup) _
        · apply TypeGraph.explains_of_other
          intro error hError
          rw [List.mem_singleton.1 hError]
          rfl
        · next hLookup =>
            intro error hError other hOther
            rw [List.mem_singleton.1 hError] at hOther
            cases hOther
            exact ⟨hLookup, hNames.1⟩

/- Interfaces of interfaces are mentioned as well. -/
theorem explains_checkDeclared
    (depth : Nat)
    {declared : List String}
    (hDeclared : ∀ name ∈ declared, graph.Mentions name)
    (path verified : List String) :
    graph.Explains
      (checkDeclared graph self depth declared path
        verified).1 := by
  induction depth generalizing declared path verified with
  | zero => exact .nil
  | succ depth ih =>
      unfold checkDeclared
      apply explains_checkEach
      · intro type hType verified
        have hNested : ∀ name ∈ type.shape.interfaces,
            graph.Mentions name := fun name hName =>
          ⟨_, hType, List.mem_append_left _ hName⟩
        simp only [TypeGraph.explains_append]
        exact
          ⟨⟨explains_missingErrors _ _ type, ih hNested _ _⟩,
            explains_shapeErrors type⟩
      · intro name hName
        exact hDeclared name ((mem_sorted name declared).1 hName)

/- Errors of an implementor are about what it mentions. -/
theorem explains_implementorErrors
    (hMentions : ∀ name ∈ self.shape.mentions,
      graph.Mentions name) :
    graph.Explains (graph.implementorErrors self) := by
  unfold FieldShape.mentions at hMentions
  unfold TypeGraph.implementorErrors
  rw [TypeGraph.explains_append, TypeGraph.explains_flatMap]
  constructor
  · exact explains_checkDeclared _
      (fun name hName =>
        hMentions name (List.mem_append_left _ hName)) _ _
  · intro entry hEntry
    apply TypeGraph.explains_fieldErrors
    intro name hName
    exact hMentions name
      (List.mem_append_right _
        (List.mem_flatMap.2 ⟨entry, hEntry, hName⟩))

end Implementor

------------------------------------------------------------
-- Graphs
------------------------------------------------------------

namespace TypeGraph

variable {graph : TypeGraph}

/- Cycles of input objects are no undefined names. -/
theorem explains_cyclesFrom
    (depth : Nat)
    (type : String)
    (fields : Entries InputValue)
    (path visiting : List String) :
    graph.Explains
      (InputObjectType.cyclesFrom graph depth type fields path
        visiting) := by
  induction depth generalizing type fields path visiting with
  | zero => exact .nil
  | succ depth ih =>
      unfold InputObjectType.cyclesFrom
      apply explains_flatMap.2
      rintro ⟨name, field⟩ -
      dsimp only
      split
      · exact .nil
      · split
        · apply explains_of_other
          intro error hError
          rw [List.mem_singleton.1 hError]
          rfl
        · split
          · exact ih _ _ _ _
          · exact .nil

/- Errors of a graph are about what its types mention. -/
theorem explains_errors : graph.Explains graph.errors := by
  unfold errors
  apply explains_flatMap.2
  intro type hType
  have hMentions : ∀ name ∈ type.mentions,
      graph.Mentions name :=
    fun name hName => ⟨type, hType, hName⟩
  cases type with
  | builtin scalar => exact .nil
  | defined type =>
      cases type with
      | object type =>
          exact Implementor.explains_implementorErrors hMentions
      | interface type =>
          exact Implementor.explains_implementorErrors hMentions
      | union type => exact explains_memberErrors hMentions
      | enum type => exact .nil
      | scalar type => exact .nil
      | inputObject type =>
          simp only [typeErrors, inputObjectErrors,
            explains_append, explains_flatMap]
          refine
            ⟨fun entry hEntry => ?_,
              explains_cyclesFrom _ _ _ _ _⟩
          exact explains_inputFieldErrors
            (hMentions _ (List.mem_map_of_mem hEntry))

/- A closed graph has a type for each name it mentions. -/
theorem Closed.contains
    (h : graph.Closed)
    {name : String}
    (hName : graph.Mentions name) :
    graph.contains name = true := by
  have hOutput : graph.HasOutput name →
      graph.contains name = true := by
    rintro ⟨type, hLookup, -⟩
    simp [TypeGraph.contains, hLookup]
  have hInput : graph.HasInput name →
      graph.contains name = true := by
    rintro ⟨type, hLookup, -⟩
    simp [TypeGraph.contains, hLookup]
  have hShape : ∀ type ∈ graph.types, ∀ shape,
      type.shape? = some shape → name ∈ shape.mentions →
      graph.contains name = true := by
    intro type hType shape hShape hMem
    rcases List.mem_append.1 hMem with hInterface | hField
    · rcases h.interfaces type hType shape hShape name hInterface
        with ⟨interface, hLookup⟩
      simp [TypeGraph.contains, hLookup]
    · rcases List.mem_flatMap.1 hField with
        ⟨entry, hEntry, hMentions⟩
      rcases List.mem_cons.1 hMentions with rfl | hGiven
      · exact hOutput (h.fields type hType shape hShape entry
          hEntry)
      · rcases List.mem_map.1 hGiven with
          ⟨argument, hArgument, rfl⟩
        exact hInput (h.arguments type hType shape hShape entry
          hEntry argument hArgument)
  rcases hName with ⟨type, hType, hMem⟩
  cases type with
  | builtin scalar => cases hMem
  | defined type =>
      cases type with
      | object type => exact hShape _ hType _ rfl hMem
      | interface type => exact hShape _ hType _ rfl hMem
      | union type =>
          have hMember : name ∈ type.members := by
            simpa [UnionType.members, NamedType.mentions,
              TypeDef.mentions] using hMem
          rcases h.members type hType name hMember with
            ⟨object, hLookup⟩
          simp [TypeGraph.contains, hLookup]
      | enum type => cases hMem
      | scalar type => cases hMem
      | inputObject type =>
          rcases List.mem_map.1 hMem with ⟨entry, hEntry, rfl⟩
          exact hInput (h.inputFields type hType entry hEntry)

end TypeGraph

end GraphQL
