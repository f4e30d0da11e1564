import GraphQL.Proofs.Results
import GraphQL.Proofs.Execution.Constants
import GraphQL.Proofs.Execution.InputResults
import GraphQL.Proofs.Execution.Outcome
import GraphQL.Proofs.Schema.Covers

/-
  Literals and the values that they denote.

  Inputs of two kinds that are read alike are coerced alike. So
  are, where scalars have no hooks to parse values with, a
  constant and the value that it denotes, and an argument is the
  same whether the constant is written in its place or a
  variable has its value.

  Key definitions include:
    * `Coercion.InputForm.ReadsAs`
    * `Coercion.Denotes`

  Main declarations:
    * `Coercion.InputResult.transfer`
    * `Coercion.literal_of_literal`
    * `Coercion.value_of_literal`
    * `Coercion.inline_alike`
-/

------------------------------------------------------------
-- Entries
------------------------------------------------------------

namespace GraphQL

namespace Entries

variable {α : Type}

/- What is stored last under a name is found. -/
theorem get?_insertAll
    {pairs : List (String × α)}
    {key : String}
    {value : α}
    (hOnly : ∀ pair ∈ pairs, pair.1 = key → pair.2 = value)
    (entries : Entries α)
    (h : entries.get? key = some value ∨ (key, value) ∈ pairs) :
    (insertAll entries pairs).get? key = some value := by
  induction pairs generalizing entries with
  | nil => exact h.resolve_right (List.not_mem_nil)
  | cons pair rest ih =>
      have hNext : insertAll entries (pair :: rest) =
          insertAll (insert entries pair.1 pair.2) rest := rfl
      have hFirst := hOnly pair List.mem_cons_self
      rw [hNext]
      apply ih fun other hOther =>
        hOnly other (List.mem_cons_of_mem _ hOther)
      by_cases hKey : pair.1 = key
      · rw [hKey, hFirst hKey]
        exact .inl (get?_insert_self entries key value)
      · rw [get?_insert_of_ne entries pair.2 hKey]
        refine h.imp_right fun hMem => ?_
        rcases List.mem_cons.1 hMem with rfl | hRest
        · exact absurd rfl hKey
        · exact hRest

/- A name whose pairs all have one value has this value. -/
theorem get?_ofList
    {pairs : List (String × α)}
    {key : String}
    {value : α}
    (hMem : (key, value) ∈ pairs)
    (hOnly : ∀ pair ∈ pairs, pair.1 = key → pair.2 = value) :
    (ofList pairs).get? key = some value :=
  get?_insertAll hOnly [] (.inr hMem)

end Entries

------------------------------------------------------------
-- Inputs Read Alike
------------------------------------------------------------

namespace Coercion

open Results (exists_of_forall₂_of_mem)

variable {α β γ : Type}

/-
  Inputs of one form that go with inputs of another are null if
  these are, have such items and entries, and are parsed alike.
-/
structure InputForm.ReadsAs
    (form : InputForm α)
    (other : InputForm β)
    (schema : Schema)
    (Goes : α → β → Prop) : Prop where
  isNull {a : α} {b : β} :
    Goes a b → other.isNull b = form.isNull a
  items {a : α} {b : β} {items : List α} :
    Goes a b → form.items? a = some items →
      ∃ others, other.items? b = some others ∧
        List.Forall₂ Goes items others
  noItems {a : α} {b : β} :
    Goes a b → form.items? a = none →
      other.items? b = none
  entries {a : α} {b : β} {entries : Entries α} :
    Goes a b → form.entries? a = some entries →
      ∃ others, other.entries? b = some others ∧
        List.Forall₂
          (fun x y => x.1 = y.1 ∧ Goes x.2 y.2) entries others
  parse {a : α} {b : β} {type : NamedType} {result : Json} :
    Goes a b → form.isNull a = false →
      type ∈ schema.types.types →
      form.parse type a = .ok result →
      other.parse type b = .ok result

/- What is paired with a list goes over to a paired list. -/
theorem forall₂_transfer
    {P : α → γ → Prop}
    {Q : β → γ → Prop}
    {Goes : α → β → Prop}
    (hStep : ∀ a b c, Goes a b → P a c → Q b c)
    {members : List α}
    {others : List β}
    {results : List γ}
    (hOthers : List.Forall₂ Goes members others)
    (hResults : List.Forall₂ P members results) :
    List.Forall₂ Q others results :=
  Results.forall₂_comp hOthers.flip hResults
    fun other member result => hStep member other result

section

variable {schema : Schema}
variable {form : InputForm α} {other : InputForm β}
variable {Goes : α → β → Prop}
variable {coerce : TypeRef → α → Coercion InputError Json}
variable {coerce' : TypeRef → β → Coercion InputError Json}
variable {fallback : TypeRef → Literal → Coercion InputError Json}
variable {fallback' : TypeRef → Literal → Coercion InputError Json}

variable
  (hCoerce : ∀ ref ref' a b result, ref.bare = ref'.bare →
    Goes a b → (coerce ref a).run = some (.ok result) →
    (coerce' ref' b).run = some (.ok result))
  (hFallback : ∀ field ∈ schema.inputFields, ∀ literal result,
    field.default = some literal →
    (fallback field.type literal).run = some (.ok result) →
    (fallback' field.type literal).run = some (.ok result))

include hCoerce hFallback

/- Objects are coerced alike if their entries are. -/
theorem ObjectResult.transfer
    {name : String}
    {type : InputObjectType}
    {entries : Entries α}
    {others : Entries β}
    {values : Entries Json}
    {slots : List (Option (String × Json))}
    (hLookup : schema.lookup name =
      some (.defined (.inputObject type)))
    (hOthers : List.Forall₂
      (fun x y => x.1 = y.1 ∧ Goes x.2 y.2) entries others)
    (h : ObjectResult coerce fallback type entries values
      slots) :
    ObjectResult coerce' fallback' type others values slots where
  entries := by
    refine forall₂_transfer ?_ hOthers h.entries
    rintro ⟨key, a⟩ ⟨_, b⟩ ⟨_, value⟩ ⟨rfl, hGoes⟩
      ⟨rfl, field, hField, hCoerced⟩
    exact ⟨rfl, field, hField,
      hCoerce _ _ a b value rfl hGoes hCoerced⟩
  fields := by
    have hMembers : List.Forall₂
        (fun entry slot? => entry ∈ type.fields ∧
          FieldResult fallback values entry.1 entry.2 slot?)
        type.fields slots :=
      (List.forall₂_and_left _ _).2
        ⟨fun _ hField => hField, h.fields⟩
    refine hMembers.imp ?_
    rintro ⟨key, field⟩ slot? ⟨hField, hResult⟩
    cases hResult with
    | given hValue hNull => exact .given hValue hNull
    | default hValue hDefault hLiteral =>
        exact .default hValue hDefault
          (hFallback field (Schema.mem_inputFields hLookup hField)
            _ _ hDefault hLiteral)
    | absent hValue hDefault hNullable =>
        exact .absent hValue hDefault hNullable

/- Inputs that are read alike are coerced alike. -/
theorem InputResult.transfer
    (hReads : form.ReadsAs other schema Goes)
    {ref ref' : TypeRef}
    {a : α}
    {b : β}
    {result : Json}
    (hRef : ref.bare = ref'.bare)
    (hGoes : Goes a b)
    (h : InputResult form schema coerce fallback ref a result) :
    InputResult other schema coerce' fallback' ref' b result := by
  cases h with
  | null hNull hNullable =>
      rw [← hReads.isNull hGoes] at hNull
      rw [← TypeRef.nullable_bare, hRef, TypeRef.nullable_bare]
        at hNullable
      exact .null hNull hNullable
  | @items inner _ _ _ _ _ hNull hFound hResults =>
      rw [← hReads.isNull hGoes] at hNull
      rcases hReads.items hGoes hFound with
        ⟨others, hOthers, hItems⟩
      cases ref' with
      | named => cases hRef
      | list inner' _ _ =>
          have hInner := (TypeRef.list.inj hRef).1
          exact .items hNull hOthers
            (forall₂_transfer (hCoerce inner inner' · · · hInner)
              hItems hResults)
  | @item inner _ _ _ _ hNull hFound hCoerced =>
      rw [← hReads.isNull hGoes] at hNull
      have hOthers := hReads.noItems hGoes hFound
      cases ref' with
      | named => cases hRef
      | list inner' _ _ =>
          have hInner := (TypeRef.list.inj hRef).1
          exact .item hNull hOthers
            (hCoerce inner inner' _ _ _ hInner hGoes hCoerced)
  | object hNull hLookup hFound hObject =>
      rw [← hReads.isNull hGoes] at hNull
      rcases hReads.entries hGoes hFound with
        ⟨others, hOthers, hEntries⟩
      cases ref' with
      | list => cases hRef
      | named name' _ _ =>
          rw [(TypeRef.named.inj hRef).1] at hLookup
          exact .object hNull hLookup hOthers
            (hObject.transfer hCoerce hFallback hLookup hEntries)
  | leaf hNull hLookup hLeaf hParsed =>
      have hOther :=
        hReads.parse hGoes hNull (TypeGraph.mem_of_lookup hLookup)
          hParsed
      rw [← hReads.isNull hGoes] at hNull
      cases ref' with
      | list => cases hRef
      | named name' _ _ =>
          rw [(TypeRef.named.inj hRef).1] at hLookup
          exact .leaf hNull hLookup hLeaf hOther

end

------------------------------------------------------------
-- Constants
------------------------------------------------------------

variable {schema : Schema}

/- Without hooks, constants are parsed for what they denote. -/
theorem parseLiteral_eq
    (hHooks : schema.WithoutParseHooks)
    {type : NamedType}
    (hType : type ∈ schema.types.types)
    {input : Literal}
    (hInput : input.WithoutVariables)
    (bindings others : Entries Json) :
    type.parseLiteral input bindings =
      type.parseLiteral input others := by
  cases type with
  | builtin scalar => rfl
  | defined type =>
      cases type with
      | scalar type =>
          simp only [NamedType.parseLiteral, (hHooks type hType).2,
            hInput.toJson_eq bindings others]
      | _ => rfl

/- A constant is read alike, whatever variables are bound to. -/
theorem literalForm_readsAs
    (hHooks : schema.WithoutParseHooks)
    (bindings others : Entries Json) :
    (literalForm bindings).ReadsAs (literalForm others) schema
      fun a b => a = b ∧ a.WithoutVariables where
  isNull := by
    rintro a _ ⟨rfl, _⟩
    rfl
  items := by
    rintro a _ items ⟨rfl, hInput⟩ hItems
    refine ⟨items, hItems, List.forall₂_same.2 ?_⟩
    intro item hItem
    cases a with
    | list items =>
        cases hItems
        exact ⟨rfl, hInput.item hItem⟩
    | _ => cases hItems
  noItems := by
    rintro a _ ⟨rfl, _⟩ hItems
    exact hItems
  entries := by
    rintro a _ entries ⟨rfl, hInput⟩ hEntries
    refine ⟨entries, hEntries, List.forall₂_same.2 ?_⟩
    intro entry hEntry
    cases a with
    | object entries =>
        cases hEntries
        exact ⟨rfl, rfl, hInput.entry hEntry⟩
    | _ => cases hEntries
  parse := by
    rintro a _ type result ⟨rfl, hInput⟩ _ hType hParsed
    exact (parseLiteral_eq hHooks hType hInput others
      bindings).trans hParsed

/-
  Constants are coerced alike, whatever variables are bound to,
  and wherever the type is referred to.
-/
theorem literal_of_literal
    (hHooks : schema.WithoutParseHooks)
    (hDefaults :
      schema.DefaultsSatisfy Literal.WithoutVariables)
    {bindings others : Entries Json}
    {fuel : Nat}
    {ref ref' : TypeRef}
    {input : Literal}
    {result : Json}
    (hRef : ref.bare = ref'.bare)
    (hInput : input.WithoutVariables)
    (h : (literal schema bindings fuel ref input).run =
      some (.ok result)) :
    (literal schema others fuel ref' input).run =
      some (.ok result) := by
  induction fuel generalizing ref ref' input result with
  | zero => cases h
  | succ fuel ih =>
      rw [literal_run_iff hInput.self] at h ⊢
      refine h.transfer ?_ ?_
        (literalForm_readsAs hHooks bindings others) hRef
        ⟨rfl, hInput⟩
      · rintro inner inner' a _ value hInner ⟨rfl, hPart⟩ hCoerced
        exact ih hInner hPart hCoerced
      · intro field hField default value hDefault hCoerced
        exact ih rfl (hDefaults field hField default hDefault)
          hCoerced

------------------------------------------------------------
-- Values Of Literals
------------------------------------------------------------

/- A value is what a constant with finite floats denotes. -/
structure Denotes (input : Literal) (value : Json) : Prop where
  withoutVariables : input.WithoutVariables
  finiteFloats : input.FiniteFloats
  proper : input.Proper
  value_eq : input.toJson [] = value

/- An integer that is kept as a literal is kept as a value. -/
theorem parseValue_ofInt
    {n : Int}
    {printed : String}
    {result : Json}
    (h : BuiltinScalar.int32 n printed = .ok result) :
    BuiltinScalar.int.parseValue (.ofInt n) = .ok result := by
  unfold BuiltinScalar.int32 at h
  split at h
  · next hFits =>
      have hBounds : -(twoTo 31 : Int) ≤ n ∧ n < twoTo 31 := by
        simpa [BuiltinScalar.fits32] using hFits
      have hWhole : BuiltinScalar.whole? (.integer n) = some n := by
        have hLess : (twoTo 31 : Int) ≤ Json.maxSigned := by
          decide
        exact if_pos (by omega)
      simpa [BuiltinScalar.parseValue, Json.ofInt, hWhole,
        BuiltinScalar.int32, hFits] using h
  · cases h

theorem builtin_parseValue_toJson
    {scalar : BuiltinScalar}
    {input : Literal}
    {result : Json}
    (hFloats : input.FiniteFloats)
    (h : scalar.parseLiteral input = .ok result) :
    scalar.parseValue (input.toJson []) = .ok result := by
  cases scalar with
  | boolean =>
      cases input with
      | boolean _ => exact h
      | _ => cases h
  | float =>
      cases input with
      | float x =>
          cases x with
          | finite _ => exact h
          | infinite negative =>
              exact absurd rfl (hFloats.self negative)
      | int _ => exact h
      | _ => cases h
  | id =>
      cases input with
      | string _ => exact h
      | int _ => exact h
      | _ => cases h
  | int =>
      cases input with
      | int _ => exact parseValue_ofInt h
      | _ => cases h
  | string =>
      cases input with
      | string _ => exact h
      | _ => cases h

/- Leaf types parse a constant as they parse its value. -/
theorem parseValue_toJson
    (hHooks : schema.WithoutParseHooks)
    {type : NamedType}
    (hType : type ∈ schema.types.types)
    {input : Literal}
    {bindings : Entries Json}
    {result : Json}
    (hVariables : input.WithoutVariables)
    (hFloats : input.FiniteFloats)
    (h : type.parseLiteral input bindings = .ok result) :
    type.parseValue (input.toJson []) = .ok result := by
  cases type with
  | builtin scalar => exact builtin_parseValue_toJson hFloats h
  | defined type =>
      cases type with
      | enum type =>
          cases input with
          | enum _ => exact h
          | _ => cases h
      | scalar type =>
          rcases hHooks type hType with ⟨hValue, hLiteral⟩
          simp only [NamedType.parseLiteral, hLiteral] at h
          simp only [NamedType.parseValue, hValue,
            hVariables.toJson_eq [] bindings, h]
      | _ => cases h

/- A constant is read as the value that it denotes. -/
theorem literalForm_readsAs_valueForm
    (hHooks : schema.WithoutParseHooks)
    (bindings : Entries Json) :
    (literalForm bindings).ReadsAs valueForm schema Denotes where
  isNull := by
    rintro a _ ⟨hVariables, hFloats, _, rfl⟩
    exact Literal.isNull_toJson hVariables hFloats
  items := by
    rintro a _ items ⟨hVariables, hFloats, hProper, rfl⟩ hItems
    cases a with
    | list items =>
        cases hItems
        refine ⟨items.map (Literal.toJson []), ?_, ?_⟩
        · rw [Literal.toJson_list]
          rfl
        · rw [List.forall₂_map_right_iff, List.forall₂_same]
          intro item hItem
          exact ⟨hVariables.item hItem, hFloats.item hItem,
            hProper.item hItem, rfl⟩
    | _ => cases hItems
  noItems := by
    rintro a _ ⟨hVariables, _, _, rfl⟩ hItems
    cases a with
    | «variable» name => exact absurd rfl (hVariables.self name)
    | list items => cases hItems
    | float value => cases value <;> rfl
    | _ => rfl
  entries := by
    rintro a _ entries ⟨hVariables, hFloats, hProper, rfl⟩
      hEntries
    cases a with
    | object entries =>
        cases hEntries
        refine ⟨Entries.mapValues (Literal.toJson []) entries, ?_,
          ?_⟩
        · rw [Literal.toJson_object (hProper.self entries rfl)]
          rfl
        · rw [Entries.mapValues, List.forall₂_map_right_iff,
            List.forall₂_same]
          intro entry hEntry
          exact ⟨rfl, hVariables.entry hEntry,
            hFloats.entry hEntry, hProper.entry hEntry, rfl⟩
    | _ => cases hEntries
  parse := by
    rintro a _ type result ⟨hVariables, hFloats, _, rfl⟩ _ hType
      hParsed
    exact parseValue_toJson hHooks hType hVariables hFloats
      hParsed

/-
  A constant that is coerced to a type denotes a value that is
  coerced to the type in the same way.
-/
theorem value_of_literal
    (hHooks : schema.WithoutParseHooks)
    (hDefaults :
      schema.DefaultsSatisfy Literal.WithoutVariables)
    {bindings : Entries Json}
    {fuel : Nat}
    {ref ref' : TypeRef}
    {input : Literal}
    {denoted result : Json}
    (hRef : ref.bare = ref'.bare)
    (hInput : Denotes input denoted)
    (h : (literal schema bindings fuel ref input).run =
      some (.ok result)) :
    (value schema fuel ref' denoted).run =
      some (.ok result) := by
  induction fuel generalizing ref ref' input denoted result with
  | zero => cases h
  | succ fuel ih =>
      rw [literal_run_iff hInput.withoutVariables.self] at h
      rw [value_run_iff]
      refine h.transfer ?_ ?_
        (literalForm_readsAs_valueForm hHooks bindings) hRef
        hInput
      · intro inner inner' a b part hInner hPart hCoerced
        exact ih hInner hPart hCoerced
      · intro field hField default value hDefault hCoerced
        exact literal_of_literal hHooks hDefaults rfl
          (hDefaults field hField default hDefault) hCoerced

------------------------------------------------------------
-- Arguments
------------------------------------------------------------

section

variable {ε δ : Type}

/- Another cause leaves what is accepted as it is. -/
theorem relabel_eq_ok_iff
    {f : ε → δ}
    {c : Coercion ε α}
    {result : α} :
    (relabel f c).run = some (.ok result) ↔
      c.run = some (.ok result) := by
  have hRun : (relabel f c).run =
      c.run.map fun result => result.mapError f := rfl
  rw [hRun]
  cases c.run with
  | none => simp
  | some outcome => cases outcome <;> simp [Except.mapError]

end

variable {fuel : Nat} {name : String} {declared : InputValue}
variable {slot? : Option (String × Json)}

/- Null is kept where it is admitted, and all else is kept. -/
theorem acceptArgument_eq_ok_iff
    {type : TypeRef}
    {result : Json} :
    (acceptArgument name type result).run = some (.ok slot?) ↔
      (result.isNull = true → type.nullable = true) ∧
        slot? = some (name, result) := by
  unfold acceptArgument
  split
  · next hNull =>
      rw [Bool.and_eq_true, Bool.not_eq_true'] at hNull
      refine ⟨nofun, ?_⟩
      rintro ⟨hKept, -⟩
      rw [hKept hNull.1] at hNull
      cases hNull.2
  · next hNull =>
      constructor
      · rintro ⟨⟩
        exact ⟨by simpa using hNull, rfl⟩
      · rintro ⟨-, rfl⟩
        rfl

/- A constant that is given for an argument is coerced. -/
theorem argument_of_literal
    {bindings : Entries Json}
    {given : Entries Literal}
    {input : Literal}
    (hGiven : given.get? name = some input)
    (hInput : ∀ var, input ≠ .variable var) :
    (argument schema bindings fuel given name declared).run =
        some (.ok slot?) ↔
      ∃ result,
        (literal schema bindings fuel declared.type input).run =
            some (.ok result) ∧
          (result.isNull = true →
            declared.type.nullable = true) ∧
          slot? = some (name, result) := by
  unfold argument
  rw [hGiven]
  cases input with
  | «variable» var => exact absurd rfl (hInput var)
  | _ =>
      simp only [run_bind_eq_ok_iff, relabel_eq_ok_iff,
        acceptArgument_eq_ok_iff]

/- A variable that is given for an argument has its value. -/
theorem argument_of_variable
    {bindings : Entries Json}
    {given : Entries Literal}
    {var : String}
    {result : Json}
    (hGiven : given.get? name = some (.variable var))
    (hBound : bindings.get? var = some result) :
    (argument schema bindings fuel given name declared).run =
        some (.ok slot?) ↔
      (result.isNull = true → declared.type.nullable = true) ∧
        slot? = some (name, result) := by
  unfold argument
  rw [hGiven]
  simp only [hBound]
  exact acceptArgument_eq_ok_iff

------------------------------------------------------------
-- Variables
------------------------------------------------------------

variable {inputs : Entries Json}
variable {definition : VariableDefinition}

/- A variable whose value is given has what it is coerced to. -/
theorem requestVariable_of_given
    {type : NamedType}
    {input result : Json}
    (hType : schema.lookup (variableType definition).innermost =
      some type)
    (hInputType : type.isInput = true)
    (hGiven : inputs.get? definition.name = some input)
    (hNull : input.isNull = true →
      (variableType definition).nullable = true)
    (h : (value schema fuel (variableType definition)
      input).run = some (.ok result)) :
    (requestVariable schema fuel inputs definition).run =
      some (.ok (some (definition.name, result))) := by
  have hKept : ¬(input.isNull &&
      !(variableType definition).nullable) = true := by
    simpa using hNull
  unfold requestVariable
  simp only [hType, hInputType, Bool.not_true, hGiven,
    if_neg hKept]
  exact run_bind_eq_ok_iff.2
    ⟨result, relabel_eq_ok_iff.2 h, rfl⟩

/- Null is a value only of types that admit it. -/
theorem nullable_of_value
    {ref : TypeRef}
    {input result : Json}
    (h : (value schema fuel ref input).run = some (.ok result))
    (hNull : input.isNull = true) :
    ref.nullable = true := by
  cases input with
  | null =>
      cases fuel with
      | zero => cases h
      | succ fuel =>
          simp only [value] at h
          split at h
          · next hNullable => exact hNullable
          · cases h
  | _ => cases hNull

/- A variable is entered under its own name. -/
theorem requestVariable_name
    {entry : String × Json}
    (h : (requestVariable schema fuel inputs definition).run =
      some (.ok (some entry))) :
    entry.1 = definition.name := by
  unfold requestVariable at h
  cases hType : schema.lookup
      (variableType definition).innermost with
  | none =>
      simp only [hType] at h
      cases h
  | some type =>
      simp only [hType] at h
      split at h
      · cases h
      · split at h
        · split at h
          · rcases run_bind_eq_ok_iff.1 h with ⟨_, _, hEntry⟩
            cases hEntry
            rfl
          · split at h <;> cases h
        · split at h
          · cases h
          · rcases run_bind_eq_ok_iff.1 h with ⟨_, _, hEntry⟩
            cases hEntry
            rfl

/- Members have results together only if each of them does. -/
theorem forall₂_of_mapM_some
    {f : α → Option β}
    {members : List α}
    {results : List β}
    (h : members.mapM f = some results) :
    List.Forall₂ (fun a result => f a = some result) members
      results := by
  induction members generalizing results with
  | nil =>
      cases h
      exact .nil
  | cons a rest ih =>
      rw [List.mapM_cons] at h
      rcases Option.bind_eq_some_iff.1 h with ⟨first, hFirst, h⟩
      rcases Option.bind_eq_some_iff.1 h with ⟨others, hRest, h⟩
      cases h
      exact .cons hFirst (ih hRest)

/- Each definition has an outcome, and each outcome is of one. -/
theorem outcomes_of_bindings
    {definitions : List VariableDefinition}
    {bound : Entries Json}
    (h : (bindings schema fuel inputs definitions).run =
      some (.ok bound)) :
    ∃ outcomes,
      List.Forall₂
        (fun definition outcome =>
          (requestVariable schema fuel inputs definition).run =
            some (Prod.snd outcome))
        definitions outcomes ∧
      bound = Entries.ofList
        (outcomes.filterMap variableEntry?) := by
  rcases run_bind_eq_ok_iff.1 h with ⟨outcomes, hOutcomes, h⟩
  refine ⟨outcomes, ?_, ?_⟩
  · rcases Option.map_eq_some_iff.1 hOutcomes with
      ⟨_, hSome, hSame⟩
    cases hSame
    refine (forall₂_of_mapM_some hSome).imp ?_
    intro definition outcome hOutcome
    rcases Option.bind_eq_some_iff.1 hOutcome with
      ⟨result, hResult, hLast⟩
    cases hLast
    exact hResult
  · dsimp only at h
    split at h
    · cases h
      rfl
    · cases h

/-
  A variable that is defined once is bound to what it has been
  coerced to.
-/
theorem get?_of_bindings
    {definitions : List VariableDefinition}
    {bound : Entries Json}
    {result : Json}
    (h : (bindings schema fuel inputs definitions).run =
      some (.ok bound))
    (hMem : definition ∈ definitions)
    (hOnly : ∀ other ∈ definitions,
      other.name = definition.name → other = definition)
    (hResult :
      (requestVariable schema fuel inputs definition).run =
        some (.ok (some (definition.name, result)))) :
    bound.get? definition.name = some result := by
  rcases outcomes_of_bindings h with ⟨outcomes, hOutcomes, rfl⟩
  apply Entries.get?_ofList
  · rcases exists_of_forall₂_of_mem hOutcomes.flip hMem with
      ⟨⟨position, outcome⟩, hOutcome, hSame⟩
    rw [hResult] at hSame
    cases hSame
    exact List.mem_filterMap.2 ⟨_, hOutcome, rfl⟩
  · rintro ⟨name, value⟩ hPair hName
    rcases List.mem_filterMap.1 hPair with
      ⟨⟨position, outcome⟩, hOutcome, hEntry⟩
    rcases exists_of_forall₂_of_mem hOutcomes hOutcome with
      ⟨other, hOther, hRun⟩
    cases outcome with
    | error cause => cases hEntry
    | ok entry? =>
        cases hEntry
        have hSame : other = definition :=
          hOnly other hOther
            ((requestVariable_name hRun).symm.trans hName)
        rw [hSame, hResult] at hRun
        cases hRun
        rfl

------------------------------------------------------------
-- Inline Or By A Variable
------------------------------------------------------------

/- A variable of a type, which is an input type, has a value. -/
structure GivenAs
    (schema : Schema)
    (inputs : Entries Json)
    (definition : VariableDefinition)
    (ref : TypeRef)
    (input : Json) : Prop where
  type_same : ref.same (variableType definition) = true
  isInput : ∃ type, schema.lookup ref.innermost = some type ∧
    type.isInput = true
  given : inputs.get? definition.name = some input

/- The variable is coerced to what the constant is coerced to. -/
theorem requestVariable_of_literal
    (hHooks : schema.WithoutParseHooks)
    (hDefaults :
      schema.DefaultsSatisfy Literal.WithoutVariables)
    {bindings : Entries Json}
    {ref : TypeRef}
    {input : Literal}
    {denoted result : Json}
    (hInput : Denotes input denoted)
    (hGiven : GivenAs schema inputs definition ref denoted)
    (h : (literal schema bindings fuel ref input).run =
      some (.ok result)) :
    (requestVariable schema fuel inputs definition).run =
      some (.ok (some (definition.name, result))) := by
  have hRef := (TypeRef.same_iff _ _).1 hGiven.type_same
  rcases hGiven.isInput with ⟨type, hType, hInputType⟩
  rw [← TypeRef.innermost_bare, hRef, TypeRef.innermost_bare]
    at hType
  have hValue := value_of_literal hHooks hDefaults hRef hInput h
  refine requestVariable_of_given hType hInputType hGiven.given
    ?_ hValue
  exact nullable_of_value hValue

/-
  A constant that a type accepts denotes a value that the type
  accepts and coerces to the same. So, if a field accepts the
  constant as an argument, a variable of the type of the
  argument accepts the value, and, in its place, gives the
  field the same argument.
-/
theorem inline_alike
    (hHooks : schema.WithoutParseHooks)
    (hDefaults :
      schema.DefaultsSatisfy Literal.WithoutVariables)
    {input : Literal}
    {denoted : Json}
    (hInput : Denotes input denoted) :
    (∀ bound fuel ref result,
      (literal schema bound fuel ref input).run =
          some (.ok result) →
        (value schema fuel ref denoted).run =
          some (.ok result)) ∧
    ∀ bound fuel name declared definition slot?,
      ∀ given : Entries Literal, ∀ inputs : Entries Json,
      given.get? name = some input →
      GivenAs schema inputs definition declared.type denoted →
      (argument schema bound fuel given name declared).run =
          some (.ok slot?) →
        (∃ entry, (requestVariable schema fuel inputs
          definition).run = some (.ok (some entry))) ∧
        ∀ definitions bound', ∀ given' : Entries Literal,
          definition ∈ definitions →
          (∀ other ∈ definitions,
            other.name = definition.name →
              other = definition) →
          (bindings schema fuel inputs definitions).run =
            some (.ok bound') →
          given'.get? name =
            some (.variable definition.name) →
          (argument schema bound' fuel given' name
            declared).run = some (.ok slot?) := by
  refine ⟨?_, ?_⟩
  · intro bound fuel ref result h
    exact value_of_literal hHooks hDefaults rfl hInput h
  · intro bound fuel name declared definition slot? given inputs
      hGiven hVariable h
    rcases (argument_of_literal hGiven
        hInput.withoutVariables.self).1 h with
      ⟨result, hResult, hKept, rfl⟩
    have hRequested := requestVariable_of_literal hHooks
      hDefaults hInput hVariable hResult
    refine ⟨⟨_, hRequested⟩, ?_⟩
    intro definitions bound' given' hMem hOnly hBound hName
    have hFound := get?_of_bindings hBound hMem hOnly hRequested
    exact (argument_of_variable hName hFound).2 ⟨hKept, rfl⟩

end Coercion

------------------------------------------------------------
-- Pages
------------------------------------------------------------

namespace Paging

open Coercion

/- A page whose window is like any other. -/
def plain : Literal :=
  .object [("window", .object [])]

def plainValue : Json :=
  .object [("window", .object [])]

/- The page as the only one of a list. -/
def pages : Json :=
  .array [.object [("window", .object [("size", .ofInt 10)])]]

def pagesArgument : InputValue :=
  ⟨"pages", .ofList (.ofName "Page" true) false, none, none,
    .programmatic, []⟩

def pagesVariable : VariableDefinition :=
  ⟨⟨1, 7⟩, "only", .nonNull (.list (.named "Page")), none⟩

/- The page and its window are all parts of the page. -/
theorem plain_each
    {P : Literal → Prop}
    (hPage : P plain)
    (hWindow : P (.object [])) : plain.Each P := by
  refine .object hPage ?_
  intro entry hEntry
  rw [List.mem_singleton.1 hEntry]
  exact .object hWindow nofun

theorem plain_denotes : Denotes plain plainValue where
  withoutVariables := plain_each nofun nofun
  finiteFloats := plain_each nofun nofun
  proper := by
    refine plain_each ?_ ?_ <;>
    · rintro _ ⟨⟩
      decide
  value_eq := rfl

/- The page is the same in its place and by a variable. -/
theorem pages_alike :
    (value schema 5 pagesArgument.type plainValue).run =
        some (.ok pages) ∧
      (argument schema [("only", pages)] 5
        [("pages", .variable "only")] "pages"
        pagesArgument).run =
          some (.ok (some ("pages", pages))) := by
  have hDefaults :
      schema.DefaultsSatisfy Literal.WithoutVariables := by
    intro field hField literal hDefault
    exact (defaults_finiteConstant field hField literal
      hDefault).1
  have hVariable : GivenAs schema [("only", plainValue)]
      pagesVariable pagesArgument.type plainValue :=
    ⟨by decide, ⟨_, rfl, rfl⟩, rfl⟩
  have hAlike := inline_alike withoutParseHooks hDefaults
    plain_denotes
  refine ⟨hAlike.1 [] 5 pagesArgument.type pages ?_, ?_⟩
  · with_unfolding_all rfl
  · have hInline : (argument schema [] 5 [("pages", plain)]
        "pages" pagesArgument).run =
          some (.ok (some ("pages", pages))) := by
      with_unfolding_all rfl
    refine (hAlike.2 [] 5 "pages" pagesArgument pagesVariable _
      [("pages", plain)] [("only", plainValue)] rfl hVariable
      hInline).2 [pagesVariable] _ _ List.mem_cons_self ?_ ?_ rfl
    · simp
    · with_unfolding_all rfl

end Paging

end GraphQL
