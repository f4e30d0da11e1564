import GraphQL.Execution.InputCoercion
import GraphQL.Proofs.Schema.Closed

/-
  Causes for which inputs are refused where a schema is closed.

  Every name that coercion meets is that of an input type, so
  only a custom scalar may say that a type is not a leaf type.

  Key definitions include:
    * `Coercion.Within`: what a coercion may give or refuse
    * `ArgumentError.Arises`

  Main declarations:
    * `Coercion.literal_within`
    * `Coercion.arguments_within`
-/

------------------------------------------------------------
-- Causes
------------------------------------------------------------

namespace GraphQL

/- The hook of a custom scalar refuses some literal this way. -/
def Schema.HookRefuses
    (schema : Schema)
    (error : LeafError) : Prop :=
  ∃ (type : ScalarType)
      (hook : Literal → Entries Json → Except LeafError Json)
      (literal : Literal) (bindings : Entries Json),
    .defined (.scalar type) ∈ schema.types.types ∧
      type.parseLiteral = some hook ∧
      hook literal bindings = .error error

/-
  Causes that arise where a schema is closed: no name is
  unknown or that of an output type, and none is asked for
  leaves it does not have.
-/
def InputError.Arises (schema : Schema) : InputError → Prop
| .notInput _ _ => False
| .unknownType _ => False
| .leaf (.notLeaf kind name) =>
    schema.HookRefuses (.notLeaf kind name)
| _ => True

/- Failures of arguments that arise where a schema is closed. -/
def ArgumentError.Arises (schema : Schema) :
    ArgumentError → Prop
| .invalid _ _ cause => cause.Arises schema
| .invalidDefault _ cause => cause.Arises schema
| _ => True

------------------------------------------------------------
-- Outcomes Of Coercions
------------------------------------------------------------

namespace Coercion

variable {ε δ α β : Type}

/- A coercion that ends gives a result, or refuses a cause. -/
def Within
    (Result : α → Prop)
    (Cause : ε → Prop)
    (c : Coercion ε α) : Prop :=
  (∀ value, c.run = some (.ok value) → Result value) ∧
    ∀ cause, c.run = some (.error cause) → Cause cause

/- All results. -/
abbrev Any : α → Prop :=
  fun _ => True

variable {Result : α → Prop} {Cause : ε → Prop}

theorem within_exhausted :
    Within Result Cause (exhausted : Coercion ε α) := by
  refine ⟨?_, ?_⟩ <;>
  · intro _ h
    exact absurd h (by simp [exhausted])

theorem within_pure
    {value : α}
    (h : Result value) :
    Within Result Cause (pure value : Coercion ε α) := by
  refine ⟨?_, ?_⟩
  · intro _ hValue
    cases hValue
    exact h
  · intro _ hCause
    cases hCause

theorem within_throw
    {cause : ε}
    (h : Cause cause) :
    Within Result Cause (throw cause : Coercion ε α) := by
  refine ⟨?_, ?_⟩
  · intro _ hValue
    cases hValue
  · intro _ hCause
    cases hCause
    exact h

/- A sequence refuses what one of its parts refuses. -/
theorem within_bind
    {Last : β → Prop}
    {first : Coercion ε α}
    {next : α → Coercion ε β}
    (hFirst : Within Result Cause first)
    (hNext : ∀ value, Result value →
      Within Last Cause (next value)) :
    Within Last Cause (first >>= next) := by
  have hSequence : (first >>= next).run =
      first.run.bind (ExceptT.bindCont next) := rfl
  cases hRun : first.run with
  | none =>
      have hBind : (first >>= next).run = none := by
        rw [hSequence, hRun]
        rfl
      refine ⟨?_, ?_⟩ <;> simp [hBind]
  | some result =>
      cases result with
      | error cause =>
          have hBind :
              (first >>= next).run = some (.error cause) := by
            rw [hSequence, hRun]
            rfl
          refine ⟨by simp [hBind], ?_⟩
          intro last hLast
          have hSame : cause = last := by
            simpa [hBind] using hLast
          exact hSame ▸ hFirst.2 cause hRun
      | ok value =>
          have hBind :
              (first >>= next).run = (next value).run := by
            rw [hSequence, hRun]
            rfl
          have hLast := hNext value (hFirst.1 value hRun)
          exact
            ⟨by simpa only [hBind] using hLast.1,
              by simpa only [hBind] using hLast.2⟩

/- Members refuse one after another. -/
theorem within_mapM
    {f : α → Coercion ε β}
    {members : List α}
    (h : ∀ a ∈ members, Within Any Cause (f a)) :
    Within Any Cause (members.mapM f) := by
  induction members with
  | nil => exact within_pure trivial
  | cons a rest ih =>
      rw [List.mapM_cons]
      apply within_bind (h a List.mem_cons_self)
      intro value _
      refine within_bind (ih ?_) ?_
      · intro b hb
        exact h b (List.mem_cons_of_mem a hb)
      · intro values _
        exact within_pure trivial

/- Another cause may be given. -/
theorem within_relabel
    {Other : δ → Prop}
    {f : ε → δ}
    {c : Coercion ε α}
    (h : Within Result Cause c)
    (hOther : ∀ cause, Cause cause → Other (f cause)) :
    Within Result Other (relabel f c) := by
  have hRun : (relabel f c).run =
      c.run.map fun result => result.mapError f := rfl
  refine ⟨?_, ?_⟩
  · intro value hValue
    rw [hRun] at hValue
    rcases Option.map_eq_some_iff.1 hValue with
      ⟨result, hResult, hMap⟩
    cases result with
    | error cause => cases hMap
    | ok found =>
        cases hMap
        exact h.1 _ hResult
  · intro cause hCause
    rw [hRun] at hCause
    rcases Option.map_eq_some_iff.1 hCause with
      ⟨result, hResult, hMap⟩
    cases result with
    | error found =>
        cases hMap
        exact hOther found (h.2 found hResult)
    | ok value => cases hMap

end Coercion

------------------------------------------------------------
-- Leaves
------------------------------------------------------------

/- Built-in scalars have leaves. -/
theorem BuiltinScalar.parseLiteral_ne_notLeaf
    (scalar : BuiltinScalar)
    (literal : Literal)
    (kind : TypeKind)
    (name : String) :
    scalar.parseLiteral literal ≠ .error (.notLeaf kind name) := by
  unfold parseLiteral
  split <;> try simp
  · unfold int32
    split <;> simp

/- Enums have leaves. -/
theorem EnumType.parseLiteral_ne_notLeaf
    (type : EnumType)
    (literal : Literal)
    (kind : TypeKind)
    (name : String) :
    type.parseLiteral literal ≠ .error (.notLeaf kind name) := by
  unfold parseLiteral
  split
  · unfold parseName
    split <;> simp
  · simp

/-
  Of the types that arguments may have, input objects apart,
  only a custom scalar may say that a type has no leaves.
-/
theorem NamedType.arises_of_parseLiteral
    {schema : Schema}
    {type : NamedType}
    {literal : Literal}
    {bindings : Entries Json}
    {error : LeafError}
    (hMem : type ∈ schema.types.types)
    (hInput : type.isInput = true)
    (hFields : ∀ object, type ≠ .defined (.inputObject object))
    (h : type.parseLiteral literal bindings = .error error) :
    (InputError.leaf error).Arises schema := by
  cases error with
  | notLeaf kind name =>
      cases type with
      | builtin scalar =>
          exact absurd h
            (scalar.parseLiteral_ne_notLeaf literal kind name)
      | defined type =>
          cases type with
          | object type => cases hInput
          | interface type => cases hInput
          | union type => cases hInput
          | inputObject type => exact absurd rfl (hFields type)
          | enum type =>
              exact absurd h
                (type.parseLiteral_ne_notLeaf literal kind name)
          | scalar type =>
              unfold parseLiteral at h
              simp only at h
              split at h
              · next hook hHook =>
                  exact ⟨type, hook, literal, bindings, hMem,
                    hHook, h⟩
              · exact absurd h (by simp)
  | _ => trivial

------------------------------------------------------------
-- Literals
------------------------------------------------------------

namespace Coercion

variable {schema : Schema} {bindings : Entries Json}

/- A name of an input type has an input type of the schema. -/
theorem inputType_within
    {name : String}
    (hName : schema.types.HasInput name) :
    Within
      (fun type => type ∈ schema.types.types ∧
        type.isInput = true)
      (InputError.Arises schema)
      (inputType schema name) := by
  rcases hName with ⟨type, hLookup, hInput⟩
  have hFound : schema.lookup name = some type := hLookup
  unfold inputType
  rw [hFound]
  simp only [hInput, if_true]
  exact within_pure ⟨TypeGraph.mem_of_lookup hLookup, hInput⟩

/- A field that is found is one of the type. -/
theorem inputField_within
    {type : InputObjectType}
    {name : String} :
    Within
      (fun field => (name, field) ∈ type.fields)
      (InputError.Arises schema)
      (inputField type name) := by
  unfold inputField
  split
  · next field hField =>
      exact within_pure (Entries.mem_of_get? hField)
  · exact within_throw trivial

/- The outcome of a leaf is that of its coercion. -/
theorem ofLeaf_within
    {Cause : InputError → Prop}
    {result : Except LeafError Json}
    (h : ∀ error, result = .error error →
      Cause (.leaf error)) :
    Within Any Cause (ofLeaf result) := by
  unfold ofLeaf
  split
  · exact within_pure trivial
  · next error => exact within_throw (h error rfl)

/- Fields are completed if their defaults are coerced. -/
theorem completeObject_within
    {fallback : TypeRef → Literal → Coercion InputError Json}
    {type : InputObjectType}
    {provided : Entries Json}
    (hFallback : ∀ entry ∈ type.fields, ∀ literal,
      Within Any (InputError.Arises schema)
        (fallback entry.2.type literal)) :
    Within Any (InputError.Arises schema)
      (completeObject fallback type provided) := by
  unfold completeObject
  refine within_bind (within_mapM ?_) ?_
  · intro entry hEntry
    unfold completeField
    split
    · split
      · exact within_throw trivial
      · exact within_pure trivial
    · split
      · next literal hDefault =>
          apply within_bind (hFallback entry hEntry literal)
          intro value _
          exact within_pure trivial
      · split
        · exact within_pure trivial
        · exact within_throw trivial
  · intro entries _
    exact within_pure trivial

/- Literals of input types are refused for what arises only. -/
theorem literal_within
    (hClosed : schema.types.Closed)
    (fuel : Nat)
    (type : TypeRef)
    (input : Literal)
    (hType : schema.types.HasInput type.innermost) :
    Within Any (InputError.Arises schema)
      (literal schema bindings fuel type input) := by
  induction fuel generalizing type input with
  | zero => exact within_exhausted
  | succ fuel ih =>
      unfold literal
      split
      · split
        · exact within_pure trivial
        · split
          · exact within_pure trivial
          · exact within_throw trivial
      · split
        · exact within_pure trivial
        · exact within_throw trivial
      · split
        · next inner nullable location =>
            have hInner := fun item => ih inner item hType
            split
            · refine within_bind (within_mapM ?_) ?_
              · intro item _
                exact hInner item
              · intro items _
                exact within_pure trivial
            · apply within_bind (hInner _)
              intro item _
              exact within_pure trivial
        · next name nullable location =>
            apply within_bind (inputType_within hType)
            rintro found ⟨hMem, hInput⟩
            split
            · next object =>
                have hField : ∀ entry ∈ object.fields,
                    ∀ literal, Within Any (InputError.Arises schema)
                      (Coercion.literal schema bindings fuel
                        entry.2.type literal) := by
                  intro entry hEntry literal
                  exact ih _ _
                    (hClosed.inputFields object hMem entry hEntry)
                split
                · refine within_bind (within_mapM ?_) ?_
                  · rintro ⟨key, value⟩ _
                    apply within_bind inputField_within
                    intro field hEntry
                    refine within_bind
                      (hField (key, field) hEntry value) ?_
                    intro result _
                    exact within_pure trivial
                  · intro provided _
                    exact completeObject_within hField
                · exact within_throw trivial
            · next hOther =>
                apply ofLeaf_within
                intro error hError
                exact found.arises_of_parseLiteral hMem hInput
                  hOther hError

------------------------------------------------------------
-- Arguments
------------------------------------------------------------

/- Literals are refused as arguments for what arises only. -/
theorem relabel_literal_within
    (hClosed : schema.types.Closed)
    {fuel : Nat}
    {type : TypeRef}
    (hType : schema.types.HasInput type.innermost)
    {label : InputError → ArgumentError}
    (hLabel : ∀ cause, cause.Arises schema →
      (label cause).Arises schema)
    (input : Literal) :
    Within Any (ArgumentError.Arises schema)
      (relabel label (literal schema bindings fuel type input)) :=
  within_relabel (literal_within hClosed fuel type input hType)
    hLabel

/- Arguments that are not given take their defaults. -/
theorem absentArgument_within
    (hClosed : schema.types.Closed)
    {fuel : Nat}
    {name : String}
    {argument : InputValue}
    (hType : schema.types.HasInput argument.type.innermost) :
    Within Any (ArgumentError.Arises schema)
      (absentArgument schema bindings fuel name argument) := by
  unfold absentArgument
  split
  · next input hDefault =>
      refine within_bind
        (relabel_literal_within hClosed hType (fun _ => id) input)
        ?_
      intro value _
      exact within_pure trivial
  · split
    · exact within_pure trivial
    · exact within_throw trivial

/- A value is accepted unless null is refused. -/
theorem acceptArgument_within
    {name : String}
    {type : TypeRef}
    {value : Json} :
    Within Any (ArgumentError.Arises schema)
      (acceptArgument name type value) := by
  unfold acceptArgument
  split
  · exact within_throw trivial
  · exact within_pure trivial

/- Arguments of input types are refused for what arises only. -/
theorem argument_within
    (hClosed : schema.types.Closed)
    {fuel : Nat}
    {given : Entries Literal}
    {name : String}
    {argument : InputValue}
    (hType : schema.types.HasInput argument.type.innermost) :
    Within Any (ArgumentError.Arises schema)
      (Coercion.argument schema bindings fuel given name
        argument) := by
  unfold Coercion.argument
  simp only
  split
  · split
    · exact acceptArgument_within
    · split
      · exact within_throw trivial
      · exact absentArgument_within hClosed hType
  · next input hVariable hGiven =>
      refine within_bind
        (relabel_literal_within hClosed hType (fun _ => id) input)
        ?_
      intro value _
      exact acceptArgument_within
  · exact absentArgument_within hClosed hType

/- Arguments of a field are refused for what arises only. -/
theorem arguments_within
    (hClosed : schema.types.Closed)
    {fuel : Nat}
    {field : OutputField}
    {given : Entries Literal}
    (hTypes : ∀ argument ∈ field.arguments,
      schema.types.HasInput argument.2.type.innermost) :
    Within Any (ArgumentError.Arises schema)
      (arguments schema bindings fuel field given) := by
  unfold arguments
  refine within_bind (within_mapM ?_) ?_
  · intro argument hArgument
    exact argument_within hClosed (hTypes argument hArgument)
  · intro entries _
    exact within_pure trivial

end Coercion

end GraphQL
