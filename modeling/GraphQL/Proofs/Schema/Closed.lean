import GraphQL.Proofs.Schema.Built

/-
  Closed schemas: every reference leads to a type of the kind
  that its place requires.

  Key definitions include:
    * `TypeGraph.Closed`
    * `Schema.Closed`

  Main declarations:
    * `TypeGraph.closed_of_validate`
    * `Schema.Built.closed`
-/

------------------------------------------------------------
-- References
------------------------------------------------------------

namespace GraphQL

namespace TypeGraph

/- A name is that of an object type. -/
def HasObject (graph : TypeGraph) (name : String) : Prop :=
  ∃ type, graph.lookup name = some (.defined (.object type))

/- A name is that of an interface. -/
def HasInterface (graph : TypeGraph) (name : String) : Prop :=
  ∃ type, graph.lookup name = some (.defined (.interface type))

/- A name is that of a type that arguments may have. -/
def HasInput (graph : TypeGraph) (name : String) : Prop :=
  ∃ type, graph.lookup name = some type ∧ type.isInput = true

/- A name is that of a type that fields may have. -/
def HasOutput (graph : TypeGraph) (name : String) : Prop :=
  ∃ type, graph.lookup name = some type ∧ type.isOutput = true

/-
  Every reference of a type of the graph, and the name of the
  type its fields stand in, leads to a type of the kind that
  the place requires.
-/
structure Closed (graph : TypeGraph) : Prop where
  parents : ∀ type ∈ graph.types,
    graph.lookup type.name = some type
  interfaces : ∀ type ∈ graph.types, ∀ shape,
    type.shape? = some shape →
    ∀ name ∈ shape.interfaces, graph.HasInterface name
  members : ∀ type,
    .defined (.union type) ∈ graph.types →
    ∀ name ∈ type.members, graph.HasObject name
  fields : ∀ type ∈ graph.types, ∀ shape,
    type.shape? = some shape →
    ∀ entry ∈ shape.fields,
      graph.HasOutput entry.2.type.innermost
  arguments : ∀ type ∈ graph.types, ∀ shape,
    type.shape? = some shape →
    ∀ entry ∈ shape.fields, ∀ argument ∈ entry.2.arguments,
      graph.HasInput argument.2.type.innermost
  inputFields : ∀ type,
    .defined (.inputObject type) ∈ graph.types →
    ∀ entry ∈ type.fields,
      graph.HasInput entry.2.type.innermost

variable {graph : TypeGraph}

/- A reference without errors leads to a type without one. -/
theorem exists_of_referenceErrors_eq_nil
    {ref : TypeRef}
    {problem? : NamedType → Option TypeError}
    (h : graph.referenceErrors ref problem? = []) :
    ∃ type, graph.lookup ref.innermost = some type ∧
      problem? type = none := by
  unfold referenceErrors at h
  split at h
  · next type hLookup =>
      refine ⟨type, hLookup, ?_⟩
      simpa using h
  · exact absurd h (by simp)

theorem hasInput_of_argumentErrors_eq_nil
    {name : String}
    {argument : InputValue}
    (h : graph.argumentErrors name argument = []) :
    graph.HasInput argument.type.innermost := by
  rcases exists_of_referenceErrors_eq_nil h with
    ⟨type, hLookup, hInput⟩
  exact ⟨type, hLookup, by simpa using hInput⟩

theorem hasInput_of_inputFieldErrors_eq_nil
    {parent name : String}
    {field : InputValue}
    (h : graph.inputFieldErrors parent name field = []) :
    graph.HasInput field.type.innermost := by
  rcases exists_of_referenceErrors_eq_nil h with
    ⟨type, hLookup, hInput⟩
  exact ⟨type, hLookup, by simpa using hInput⟩

/- A field without errors has an output type. -/
theorem hasOutput_of_fieldErrors_eq_nil
    {parent name : String}
    {field : OutputField}
    (h : graph.fieldErrors parent name field = []) :
    graph.HasOutput field.type.innermost := by
  simp only [fieldErrors, List.append_eq_nil_iff] at h
  rcases exists_of_referenceErrors_eq_nil h.1 with
    ⟨type, hLookup, hOutput⟩
  exact ⟨type, hLookup, by simpa using hOutput⟩

/- Arguments of a field without errors have input types. -/
theorem hasInput_of_fieldErrors_eq_nil
    {parent name : String}
    {field : OutputField}
    (h : graph.fieldErrors parent name field = [])
    {argument : String × InputValue}
    (hArgument : argument ∈ field.arguments) :
    graph.HasInput argument.2.type.innermost := by
  simp only [fieldErrors, List.append_eq_nil_iff,
    List.flatMap_eq_nil_iff] at h
  exact hasInput_of_argumentErrors_eq_nil (h.2 argument hArgument)

/- A member without an error is an object type. -/
theorem hasObject_of_memberError?_eq_none
    {union : UnionType}
    {member : String}
    (h : graph.memberError? union member = none) :
    graph.HasObject member := by
  unfold memberError? at h
  split at h
  · exact absurd h (by simp)
  · next type hLookup => exact ⟨type, hLookup⟩
  · exact absurd h (by simp)

end TypeGraph

------------------------------------------------------------
-- Interfaces
------------------------------------------------------------

namespace Implementor

variable {graph : TypeGraph} {self : Implementor}

/-
  A check adds to the names that were verified before, and if
  it has no errors, only names of interfaces.
-/
def Verifies
    (graph : TypeGraph)
    (before : List String)
    (result : List TypeError × List String) : Prop :=
  before ⊆ result.2 ∧
    (result.1 = [] → ∀ name ∈ result.2,
      name ∈ before ∨ graph.HasInterface name)

/- Names are sorted without loss. -/
theorem mem_sorted (name : String) (names : List String) :
    name ∈ sorted names ↔ name ∈ names := by
  simp [sorted, List.mem_eraseDups]

/- Nothing is verified by a check that does nothing. -/
theorem Verifies.refl (before : List String) :
    Verifies graph before ([], before) :=
  ⟨fun _ h => h, fun _ _ h => .inl h⟩

/- One check may follow another. -/
theorem Verifies.trans
    {before verified after : List String}
    {now later : List TypeError}
    (hNow : Verifies graph before (now, verified))
    (hLater : Verifies graph verified (later, after)) :
    Verifies graph before (now ++ later, after) := by
  refine ⟨List.Subset.trans hNow.1 hLater.1, ?_⟩
  intro hErrors name hName
  simp only [List.append_eq_nil_iff] at hErrors
  rcases hLater.2 hErrors.2 name hName with hBefore | hInterface
  · exact hNow.2 hErrors.1 name hBefore
  · exact .inr hInterface

/- Errors from elsewhere do not spoil a check. -/
theorem Verifies.surround
    {before after : List String}
    {first errors last : List TypeError}
    (h : Verifies graph before (errors, after)) :
    Verifies graph before (first ++ errors ++ last, after) := by
  refine ⟨h.1, ?_⟩
  intro hErrors
  simp only [List.append_eq_nil_iff] at hErrors
  exact h.2 hErrors.1.2

/- The check of a name that is not verified yet. -/
def checkOne
    (graph : TypeGraph)
    (self : Implementor)
    (check : InterfaceType → List String →
      List TypeError × List String)
    (name : String)
    (verified : List String) :
    List TypeError × List String :=
  match graph.lookup name with
  | some (.defined (.interface type)) => check type verified
  | some other =>
      ([.implementsOtherKind self.location self.name other.name],
        verified)
  | none =>
      ([.implementsUndefined self.location self.name name],
        verified)

/- A name that is not verified is checked before the others. -/
theorem checkEach_cons
    {check : InterfaceType → List String →
      List TypeError × List String}
    {name : String}
    {rest verified : List String}
    (hNew : name ∉ verified) :
    checkEach graph self check (name :: rest) verified =
      let now :=
        checkOne graph self check name (name :: verified)
      let later := checkEach graph self check rest now.2
      (now.1 ++ later.1, later.2) := by
  rw [checkEach, if_neg (by simpa using hNew)]
  rfl

/- A name is verified by its check. -/
theorem checkOne_verifies
    {check : InterfaceType → List String →
      List TypeError × List String}
    (hCheck : ∀ interface verified,
      Verifies graph verified (check interface verified))
    (name : String)
    (verified : List String) :
    Verifies graph verified
        (checkOne graph self check name (name :: verified)) ∧
      name ∈
        (checkOne graph self check name
          (name :: verified)).2 := by
  unfold checkOne
  split
  · next type hLookup =>
      have hStep := hCheck type (name :: verified)
      refine ⟨⟨?_, ?_⟩, hStep.1 List.mem_cons_self⟩
      · exact List.Subset.trans (List.subset_cons_self _ _) hStep.1
      · intro hErrors other hOther
        rcases hStep.2 hErrors other hOther with
          hMem | hInterface
        · rcases List.mem_cons.1 hMem with rfl | hBefore
          · exact .inr ⟨type, hLookup⟩
          · exact .inl hBefore
        · exact .inr hInterface
  · refine ⟨⟨List.subset_cons_self _ _, ?_⟩, by simp⟩
    intro hErrors
    exact absurd hErrors (by simp)
  · refine ⟨⟨List.subset_cons_self _ _, ?_⟩, by simp⟩
    intro hErrors
    exact absurd hErrors (by simp)

/- Names are checked one after another. -/
theorem checkEach_verifies
    {check : InterfaceType → List String →
      List TypeError × List String}
    (hCheck : ∀ interface verified,
      Verifies graph verified (check interface verified))
    (names verified : List String) :
    Verifies graph verified
        (checkEach graph self check names verified) ∧
      names ⊆ (checkEach graph self check names verified).2 := by
  induction names generalizing verified with
  | nil => exact ⟨.refl verified, by simp⟩
  | cons name rest ih =>
      by_cases hKnown : name ∈ verified
      · have hRest := ih verified
        rw [checkEach, if_pos (by simpa using hKnown)]
        exact
          ⟨hRest.1,
            List.cons_subset.2 ⟨hRest.1.1 hKnown, hRest.2⟩⟩
      · have hFirst :=
          @checkOne_verifies graph self check hCheck name verified
        have hRest := ih
          (checkOne graph self check name (name :: verified)).2
        rw [checkEach_cons hKnown]
        exact
          ⟨hFirst.1.trans hRest.1,
            List.cons_subset.2
              ⟨hRest.1.1 hFirst.2, hRest.2⟩⟩

/- The interfaces at the end of a path are checked. -/
theorem checkDeclared_verifies
    (depth : Nat)
    (declared path verified : List String) :
    Verifies graph verified
        (checkDeclared graph self depth declared path verified) ∧
      (0 < depth → declared ⊆
        (checkDeclared graph self depth declared path
          verified).2) := by
  induction depth generalizing declared path verified with
  | zero => exact ⟨.refl verified, by simp⟩
  | succ depth ih =>
      unfold checkDeclared
      refine ⟨(checkEach_verifies ?_ _ _).1, ?_⟩
      · intro interface verified
        exact (ih _ _ _).1.surround
      · intro _ name hName
        refine (checkEach_verifies ?_ _ _).2
          ((mem_sorted name declared).2 hName)
        intro interface verified
        exact (ih _ _ _).1.surround

/- Interfaces of a type without errors are interfaces. -/
theorem hasInterface_of_interfaceErrors_eq_nil
    (h : self.interfaceErrors graph = [])
    {name : String}
    (hName : name ∈ self.shape.interfaces) :
    graph.HasInterface name := by
  have hChecked :=
    @checkDeclared_verifies graph self (graph.size + 1)
      self.shape.interfaces [] []
  have hVerified := hChecked.2 (Nat.succ_pos _) hName
  rcases hChecked.1.2 h name hVerified with
    hBefore | hInterface
  · exact absurd hBefore (by simp)
  · exact hInterface

end Implementor

------------------------------------------------------------
-- Graphs
------------------------------------------------------------

namespace TypeGraph

variable {graph : TypeGraph}

/- Objects and interfaces are implementors. -/
theorem implementorErrors_eq_nil_of_shape?
    {type : NamedType}
    {shape : FieldShape}
    (hErrors : graph.typeErrors type = [])
    (hShape : type.shape? = some shape) :
    ∃ self : Implementor, self.shape = shape ∧
      graph.implementorErrors self = [] := by
  cases type with
  | builtin scalar => exact absurd hShape (by simp
      [NamedType.shape?])
  | defined type =>
      cases type with
      | object type =>
          cases hShape
          exact ⟨⟨type.name, type.header.location, type.shape⟩,
            rfl, hErrors⟩
      | interface type =>
          cases hShape
          exact ⟨⟨type.name, type.header.location, type.shape⟩,
            rfl, hErrors⟩
      | union type => cases hShape
      | enum type => cases hShape
      | scalar type => cases hShape
      | inputObject type => cases hShape

/- A graph without errors is closed. -/
theorem closed_of_errors_eq_nil (h : graph.errors = []) :
    graph.Closed := by
  have hType : ∀ type ∈ graph.types,
      graph.typeErrors type = [] :=
    List.flatMap_eq_nil_iff.1 h
  have hShaped : ∀ type ∈ graph.types, ∀ shape,
      type.shape? = some shape →
      ∃ self : Implementor, self.shape = shape ∧
        self.interfaceErrors graph = [] ∧
        ∀ entry ∈ shape.fields,
          graph.fieldErrors self.name entry.1 entry.2 = [] := by
    intro type hMem shape hShape
    rcases implementorErrors_eq_nil_of_shape? (hType type hMem)
      hShape with ⟨self, rfl, hErrors⟩
    simp only [implementorErrors, List.append_eq_nil_iff,
      List.flatMap_eq_nil_iff] at hErrors
    exact ⟨self, rfl, hErrors⟩
  refine ⟨?_, ?_, ?_, ?_, ?_, ?_⟩
  · intro type hMem
    exact lookup_of_mem hMem
  · intro type hMem shape hShape name hName
    rcases hShaped type hMem shape hShape with
      ⟨self, rfl, hInterfaces, -⟩
    exact Implementor.hasInterface_of_interfaceErrors_eq_nil
      hInterfaces hName
  · intro type hMem name hName
    have hErrors := hType _ hMem
    simp only [typeErrors, List.filterMap_eq_nil_iff] at hErrors
    exact hasObject_of_memberError?_eq_none (hErrors name hName)
  · intro type hMem shape hShape entry hEntry
    rcases hShaped type hMem shape hShape with
      ⟨self, rfl, -, hFields⟩
    exact hasOutput_of_fieldErrors_eq_nil (hFields entry hEntry)
  · intro type hMem shape hShape entry hEntry argument hArgument
    rcases hShaped type hMem shape hShape with
      ⟨self, rfl, -, hFields⟩
    exact hasInput_of_fieldErrors_eq_nil (hFields entry hEntry)
      hArgument
  · intro type hMem entry hEntry
    have hErrors := hType _ hMem
    simp only [typeErrors, inputObjectErrors,
      List.append_eq_nil_iff, List.flatMap_eq_nil_iff] at hErrors
    exact hasInput_of_inputFieldErrors_eq_nil
      (hErrors.1 entry hEntry)

/- A graph that is accepted is closed. -/
theorem closed_of_validate (h : graph.validate = .ok ()) :
    graph.Closed := by
  apply closed_of_errors_eq_nil
  unfold validate at h
  split at h
  · exact absurd h (by simp)
  · split at h
    · next hEmpty => simpa using hEmpty
    · exact absurd h (by simp)

end TypeGraph

------------------------------------------------------------
-- Schemas
------------------------------------------------------------

/- Only object types are objects. -/
theorem NamedType.eq_of_object?_eq_some
    {type : NamedType}
    {object : ObjectType}
    (h : type.object? = some object) :
    type = .defined (.object object) := by
  cases type with
  | builtin scalar => cases h
  | defined type =>
      cases type <;> cases h
      rfl

/- Objects that a value may have are objects of the schema. -/
theorem Schema.mem_types_of_mem_possibleTypes
    {schema : Schema}
    {type : NamedType}
    {object : ObjectType}
    (h : object ∈ schema.possibleTypes type) :
    .defined (.object object) ∈ schema.types.types := by
  unfold possibleTypes at h
  split at h
  · next interface =>
      rcases List.mem_flatMap.1 h with ⟨found, hFound, hSame⟩
      rcases List.mem_filterMap.1 hFound with
        ⟨named, hNamed, hDefined⟩
      rw [List.eq_of_mem_replicate hSame]
      exact NamedType.eq_of_object?_eq_some hDefined ▸ hNamed
  · next union =>
      rcases List.mem_filterMap.1 h with ⟨name, -, hName⟩
      rcases Option.bind_eq_some_iff.1 hName with
        ⟨found, hLookup, hFound⟩
      exact NamedType.eq_of_object?_eq_some hFound ▸
        TypeGraph.mem_of_lookup hLookup
  · exact absurd h (by simp)

/- The graph is closed, and every root is an object type. -/
structure Schema.Closed (schema : Schema) : Prop where
  types : schema.types.Closed
  roots : ∀ operation ref,
    schema.roots.get? operation = some ref →
    ∃ type, schema.rootType? operation = some type ∧
      type.name = ref.type

namespace Pass

/- A root that is settled is an object type of its name. -/
theorem exists_object_of_settleRoot
    {graph : TypeGraph}
    {operation : OperationKind}
    {declared? : Option RootReference}
    {ref : RootReference}
    (h :
      settleRoot graph operation declared? = .ok (some ref)) :
    ∃ type, graph.lookup ref.type =
      some (.defined (.object type)) := by
  unfold settleRoot at h
  split at h
  · split at h
    · next type hObject =>
        cases h
        rcases Option.bind_eq_some_iff.1 hObject with
          ⟨found, hLookup, hFound⟩
        exact
          ⟨type,
            NamedType.eq_of_object?_eq_some hFound ▸ hLookup⟩
    · exact absurd h (by simp)
  · split at h
    · next type hLookup =>
        cases h
        exact ⟨type, hLookup⟩
    · exact absurd h (by simp)

end Pass

namespace Schema

/- An object that a root reference leads to is its root type. -/
theorem rootType?_eq_of_lookup
    {schema : Schema}
    {operation : OperationKind}
    {ref : RootReference}
    {type : ObjectType}
    (hRef : schema.roots.get? operation = some ref)
    (hLookup :
      schema.types.lookup ref.type =
        some (.defined (.object type))) :
    schema.rootType? operation = some type := by
  simp [rootType?, hRef, object?, lookup, hLookup,
    NamedType.object?]

/- A pass assembles closed schemas only. -/
theorem closed_of_assemble
    {pass : Pass}
    {graph : TypeGraph}
    {schema : Schema}
    (h : pass.assemble graph = .ok schema) : schema.Closed := by
  rcases Pass.assemble_eq_ok_iff.1 h with
    ⟨rfl, -, hValid, hRoots⟩
  refine ⟨TypeGraph.closed_of_validate hValid, ?_⟩
  intro operation ref hRef
  have hSettled := hRoots operation
  rw [hRef] at hSettled
  have hObject := Pass.exists_object_of_settleRoot hSettled
  rcases hObject with ⟨type, hLookup⟩
  exact
    ⟨type, rootType?_eq_of_lookup hRef hLookup,
      TypeGraph.name_of_lookup hLookup⟩

/- Schemas that are built or extended are closed. -/
theorem Built.closed {schema : Schema} (h : schema.Built) :
    schema.Closed := by
  rcases h.exists_build with ⟨pass, decorator?, hBuild⟩
  rcases Pass.exists_assemble_of_build hBuild with
    ⟨graph, hAssemble⟩
  exact closed_of_assemble hAssemble

end Schema

end GraphQL
