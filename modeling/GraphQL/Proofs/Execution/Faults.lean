import GraphQL.Proofs.Execution.Causes
import GraphQL.Proofs.Execution.Conformance

/-
  Faults of fields where a schema is closed: the executor never
  meets a name that it can not use.

  Key definitions include:
    * `FieldFault.Arises`

  Main declarations:
    * `ExecutionContext.arises_invariant`
    * `Schema.Built.closed_in_execution`
-/

------------------------------------------------------------
-- Faults
------------------------------------------------------------

namespace GraphQL

/-
  Faults that arise where a schema is closed: fields have
  output types, arguments have input types, and only abstract
  types are resolved.
-/
def FieldFault.Arises (schema : Schema) : FieldFault → Prop
| .argument error => error.Arises schema
| .undefinedType _ => False
| .inputType _ => False
| .abstractType (.notAbstract _) => False
| _ => True

------------------------------------------------------------
-- Abstract Types
------------------------------------------------------------

namespace AbstractType

variable {schema : Schema} {hooks : Hooks} {type : NamedType}
variable {value : Json} {info : ResolveInfo}

/- The hooks of an abstract type never say that it is none. -/
theorem resolveWith_ne_notAbstract
    {hook? : Option Hook}
    {name : String} :
    (resolveWith schema hooks type hook? value info).1 ≠
      .error (.notAbstract name) := by
  have hScan : ∀ candidates,
      (scan hooks type candidates value info).1 ≠
        .error (.notAbstract name) := by
    intro candidates
    unfold scan
    simp only
    split <;> simp
  unfold resolveWith
  simp only
  split
  · split
    · split <;> simp
    · exact hScan _
  · split
    · simp
    · exact hScan _

/- An abstract type is resolved as one. -/
theorem resolve_ne_notAbstract
    {name : String}
    (hType : type.isAbstract = true) :
    (resolve schema hooks type value info).1 ≠
      .error (.notAbstract name) := by
  unfold resolve
  split
  · exact resolveWith_ne_notAbstract
  · exact resolveWith_ne_notAbstract
  · next hInterface hUnion =>
      cases type with
      | builtin scalar => cases scalar <;> cases hType
      | defined type =>
          cases type with
          | interface t => exact absurd rfl (hInterface t)
          | union t => exact absurd rfl (hUnion t)
          | object t => cases hType
          | enum t => cases hType
          | scalar t => cases hType
          | inputObject t => cases hType

end AbstractType

------------------------------------------------------------
-- Execution
------------------------------------------------------------

namespace ExecutionContext

variable {context : ExecutionContext}

/- A value of an output type is refused for what arises only. -/
theorem Faults.arises
    {info : ResolveInfo}
    {type : TypeRef}
    {value : Json}
    {fault : FieldFault}
    (h : context.Faults info type value fault)
    (hType :
      context.schema.types.HasOutput type.innermost) :
    fault.Arises context.schema := by
  cases h with
  | undefinedType hLookup =>
      rcases hType with ⟨found, hFound, -⟩
      exact absurd (hLookup.symm.trans hFound) (by simp)
  | inputType hLookup =>
      rcases hType with ⟨found, hFound, hOutput⟩
      cases hLookup.symm.trans hFound
      cases hOutput
  | @abstractType _ _ _ _ _ error hLookup hAbstract hResolve =>
      cases error with
      | notAbstract name =>
          exact AbstractType.resolve_ne_notAbstract hAbstract
            hResolve
      | _ => trivial
  | _ => trivial

/- The object type of a value is one of the schema. -/
theorem RuntimeType.mem_types
    {info : ResolveInfo}
    {name : String}
    {value : Json}
    {type : ObjectType}
    (h : context.RuntimeType info name value type) :
    .defined (.object type) ∈ context.schema.types.types := by
  cases h with
  | object hLookup hAccepts =>
      exact TypeGraph.mem_of_lookup hLookup
  | abstract hLookup hAbstract hResolve =>
      exact Schema.mem_types_of_mem_possibleTypes
        (mem_possibleTypes_of_resolve hResolve)

/- A group of an object of the schema. -/
theorem arises_of_groupOutcome
    (hClosed : context.schema.types.Closed)
    {path : List PathSegment}
    {type : ObjectType}
    {source : Json}
    {group : FieldGroup}
    {slot? : Option (Option (String × Json))}
    {errors : List FieldError}
    (hType :
      .defined (.object type) ∈ context.schema.types.types)
    (h :
      GroupOutcome
        (fun _ _ type _ _ _ errors =>
          context.schema.types.HasOutput type.innermost →
            ∀ error ∈ errors, error.fault.Arises context.schema)
        context path type source group slot? errors) :
    ∀ error ∈ errors, error.fault.Arises context.schema := by
  cases h with
  | typename hName => simp
  | unknown hName hField => simp
  | @field field value? errors hName hField hOutcome =>
      have hEntry := Entries.mem_of_get? hField
      cases hOutcome with
      | argument hArgument =>
          have hTypes := hClosed.arguments _ hType type.shape rfl
            _ hEntry
          have hCause :=
            (Coercion.arguments_within hClosed hTypes).2 _
              hArgument
          simpa [FieldFault.Arises] using hCause
      | resolver hArguments hResult =>
          simp [FieldFault.Arises]
      | value hYields hValue =>
          exact hValue
            (hClosed.fields _ hType type.shape rfl _ hEntry)

/- Execution only fails for what arises. -/
theorem arises_invariant
    (hClosed : context.schema.types.Closed) :
    context.Invariant
      (fun _ _ type _ _ _ errors =>
        context.schema.types.HasOutput type.innermost →
          ∀ error ∈ errors, error.fault.Arises context.schema)
      (fun _ type _ _ _ errors =>
        .defined (.object type) ∈ context.schema.types.types →
          ∀ error ∈ errors,
            error.fault.Arises context.schema) where
  null _ := by
    intro _
    simp
  fault hFault := by
    intro hType
    simpa using hFault.arises hType
  leaf _ _ _ _ := by
    intro _
    simp
  list hItems := by
    intro hType error hError
    rcases hItems.exists_of_mem hError with
      ⟨item, -, value?, own, hOwn, hMem⟩
    cases hOwn with
    | intro hValue => exact hValue hType error hMem
  object _ hRuntime hObject := by
    intro _
    exact hObject hRuntime.mem_types
  groups hGroups := by
    intro hType error hError
    rcases hGroups.exists_of_mem hError with
      ⟨group, -, slot?, own, hOwn, hMem⟩
    exact arises_of_groupOutcome hClosed hType hOwn error hMem

end ExecutionContext

------------------------------------------------------------
-- Built Schemas
------------------------------------------------------------

/- The root type of an operation is an object of the schema. -/
theorem Request.mem_types_of_rootType
    {schema : Schema}
    {operation : Operation}
    {object : ObjectType}
    (h : rootType schema operation = .ok object) :
    .defined (.object object) ∈ schema.types.types := by
  unfold rootType at h
  split at h
  · exact absurd h (by simp)
  · split at h
    · next type hType =>
        cases h
        rcases Option.bind_eq_some_iff.1 hType with
          ⟨ref, -, hRef⟩
        rcases Option.bind_eq_some_iff.1 hRef with
          ⟨found, hLookup, hFound⟩
        exact NamedType.eq_of_object?_eq_some hFound ▸
          TypeGraph.mem_of_lookup hLookup
    · exact absurd h (by simp)

/-
  A schema that is built or extended is closed, and no request
  about it, with whatever hooks, meets a fault that only
  references which lead nowhere could cause.
-/
theorem Schema.Built.closed_in_execution
    {schema : Schema}
    (h : schema.Built) :
    schema.Closed ∧
      ∀ (request : Request) (hooks : Hooks) (fuel : Nat)
        (document : ExecutableDocument) (answer : Run),
        request.execute schema hooks fuel document =
          some answer →
        (∃ errors, answer = .refusal errors) ∨
          ∃ (start : Request.Start request schema fuel document)
            (outcome : Completed (List (String × Json))),
            (start.context hooks).executeSelections fuel []
                start.root request.rootValue
                start.operation.selections =
              some outcome ∧
            answer = Request.run start.operation outcome ∧
            ∀ error ∈ outcome.errors,
              error.fault.Arises schema := by
  refine ⟨h.closed, ?_⟩
  intro request hooks fuel document answer hAnswer
  rcases Request.refusal_or_start hAnswer with
    hRefusal | ⟨start, outcome, hOutcome, hRun⟩
  · exact .inl hRefusal
  · refine .inr ⟨start, outcome, hOutcome, hRun, ?_⟩
    have hInvariant :=
      @ExecutionContext.arises_invariant (start.context hooks)
        h.closed.types
    exact hInvariant.holds (Completion.gives_of_eq_some hOutcome)
      (Request.mem_types_of_rootType start.root_eq)

/- The catalogue is closed, and its answer has no such fault. -/
theorem Catalogue.closed_in_request :
    schema.Built ∧ schema.Closed ∧
      request.execute schema hooks 6 requested = some answer ∧
      ((∃ errors, answer = .refusal errors) ∨
        ∃ (start : Request.Start request schema 6 requested)
          (outcome : Completed (List (String × Json))),
          (start.context hooks).executeSelections 6 []
              start.root request.rootValue
              start.operation.selections =
            some outcome ∧
          answer = Request.run start.operation outcome ∧
          ∀ error ∈ outcome.errors,
            error.fault.Arises schema) := by
  have hClosed := Schema.Built.closed_in_execution built
  have hAnswer :
      request.execute schema hooks 6 requested = some answer := by
    rfl
  exact
    ⟨built, hClosed.1, hAnswer,
      hClosed.2 request hooks 6 requested answer hAnswer⟩

end GraphQL
