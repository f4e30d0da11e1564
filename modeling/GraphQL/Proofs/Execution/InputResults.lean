import GraphQL.Proofs.Execution.Settling

/-
  What accepted inputs are coerced to.

  A coercion that succeeds has gone one of a few ways, and each
  of them says what the input was and what has become of it.
  Properties of coerced values are proved by these cases.

  Key definitions include:
    * `Coercion.FieldResult`, `Coercion.ObjectResult`
    * `Coercion.InputForm`: how inputs of one kind are read
    * `Coercion.InputForm.step`, `Coercion.InputResult`

  Main declarations:
    * `Coercion.objectResult_iff`
    * `Coercion.literal_run_iff`, `Coercion.value_run_iff`
-/

------------------------------------------------------------
-- Input Objects
------------------------------------------------------------

namespace GraphQL

namespace Coercion

variable {α β ε : Type}

/- Members succeed together if each of them does. -/
theorem mapM_of_forall₂
    {f : α → Coercion ε β}
    {members : List α}
    {values : List β}
    (h : List.Forall₂ (fun a value => (f a).run = some (.ok value))
      members values) :
    (members.mapM f).run = some (.ok values) := by
  induction h with
  | nil => rfl
  | cons hFirst _ ih =>
      rw [List.mapM_cons]
      exact run_bind_eq_ok_iff.2 ⟨_, hFirst,
        run_bind_eq_ok_iff.2 ⟨_, ih, rfl⟩⟩

/- Members succeed together exactly if each of them does. -/
theorem run_mapM_eq_ok_iff
    {f : α → Coercion ε β}
    {members : List α}
    {values : List β} :
    (members.mapM f).run = some (.ok values) ↔
      List.Forall₂ (fun a value => (f a).run = some (.ok value))
        members values :=
  ⟨forall₂_of_mapM, mapM_of_forall₂⟩

/-
  The entry that a field is given: the one that is provided, or
  its default, or none.
-/
inductive FieldResult
    (fallback : TypeRef → Literal → Coercion InputError Json)
    (values : Entries Json)
    (name : String)
    (field : InputValue) : Option (String × Json) → Prop where
  | given {value : Json} :
      values.get? name = some value →
      (value.isNull = true → field.type.nullable = true) →
      FieldResult fallback values name field
        (some (name, value))
  | default {literal : Literal} {value : Json} :
      values.get? name = none →
      field.default = some literal →
      (fallback field.type literal).run = some (.ok value) →
      FieldResult fallback values name field
        (some (name, value))
  | absent :
      values.get? name = none →
      field.default = none →
      field.type.nullable = true →
      FieldResult fallback values name field none

theorem fieldResult_iff
    {fallback : TypeRef → Literal → Coercion InputError Json}
    {type : InputObjectType}
    {values : Entries Json}
    {name : String}
    {field : InputValue}
    {slot? : Option (String × Json)} :
    (completeField fallback type values name field).run =
        some (.ok slot?) ↔
      FieldResult fallback values name field slot? := by
  unfold completeField
  constructor
  · intro h
    split at h
    · next value hValue =>
        split at h
        · cases h
        · next hNull =>
            cases h
            exact .given hValue (by simpa using hNull)
    · next hValue =>
        split at h
        · next literal hDefault =>
            rcases run_bind_eq_ok_iff.1 h with
              ⟨value, hFallback, hSlot⟩
            cases hSlot
            exact .default hValue hDefault hFallback
        · next hDefault =>
            split at h
            · next hNullable =>
                cases h
                exact .absent hValue hDefault hNullable
            · cases h
  · intro h
    cases h with
    | @given value hValue hNull =>
        have hKept :
            ¬(value.isNull && !field.type.nullable) = true := by
          simpa using hNull
        simp only [hValue, if_neg hKept]
        rfl
    | default hValue hDefault hFallback =>
        simp only [hValue, hDefault]
        exact run_bind_eq_ok_iff.2 ⟨_, hFallback, rfl⟩
    | absent hValue hDefault hNullable =>
        simp only [hValue, hDefault, if_pos hNullable]
        rfl

/- An entry of an object, coerced to the field of its name. -/
structure EntryResult
    (coerce : TypeRef → α → Coercion InputError Json)
    (type : InputObjectType)
    (entry : String × α)
    (result : String × Json) : Prop where
  name_eq : result.1 = entry.1
  coerced : ∃ field, type.fields.get? entry.1 = some field ∧
    (coerce field.type entry.2).run = some (.ok result.2)

/-
  What an object is coerced to: its entries are coerced, and
  then every field of the type is given its entry.
-/
structure ObjectResult
    (coerce : TypeRef → α → Coercion InputError Json)
    (fallback : TypeRef → Literal → Coercion InputError Json)
    (type : InputObjectType)
    (entries : Entries α)
    (values : Entries Json)
    (slots : List (Option (String × Json))) : Prop where
  entries : List.Forall₂ (EntryResult coerce type) entries values
  fields : List.Forall₂
    (fun entry slot? =>
      FieldResult fallback values entry.1 entry.2 slot?)
    type.fields slots

theorem provided_eq_ok_iff
    {coerce : TypeRef → α → Coercion InputError Json}
    {type : InputObjectType}
    {entries : Entries α}
    {values : Entries Json} :
    (provided coerce type entries).run = some (.ok values) ↔
      List.Forall₂ (EntryResult coerce type) entries values := by
  unfold provided
  rw [run_mapM_eq_ok_iff]
  have hEntry (entry : String × α) (result : String × Json) :
      (do
        let field ← inputField type entry.1
        let value ← coerce field.type entry.2
        return (entry.1, value)).run = some (.ok result) ↔
      EntryResult coerce type entry result := by
    rw [run_bind_eq_ok_iff]
    constructor
    · rintro ⟨field, hField, h⟩
      rcases run_bind_eq_ok_iff.1 h with ⟨value, hValue, hLast⟩
      cases hLast
      refine ⟨rfl, field, ?_, hValue⟩
      unfold inputField at hField
      split at hField
      · next found hFound =>
          cases hField
          exact hFound
      · cases hField
    · rintro ⟨hName, field, hField, hValue⟩
      rcases result with ⟨name, value⟩
      cases hName
      refine ⟨field, ?_, run_bind_eq_ok_iff.2 ⟨_, hValue, rfl⟩⟩
      simp only [inputField, hField]
      rfl
  simp only [hEntry]

/- An object is accepted exactly if its entries and fields are. -/
theorem objectResult_iff
    {coerce : TypeRef → α → Coercion InputError Json}
    {fallback : TypeRef → Literal → Coercion InputError Json}
    {type : InputObjectType}
    {entries : Entries α}
    {result : Json} :
    (provided coerce type entries >>=
        completeObject fallback type).run =
        some (.ok result) ↔
      ∃ values slots,
        ObjectResult coerce fallback type entries values slots ∧
          result = .object (slots.filterMap id) := by
  rw [run_bind_eq_ok_iff]
  constructor
  · rintro ⟨values, hValues, h⟩
    rcases run_bind_eq_ok_iff.1 h with ⟨slots, hSlots, hLast⟩
    cases hLast
    refine ⟨values, slots, ⟨provided_eq_ok_iff.1 hValues, ?_⟩,
      rfl⟩
    refine (run_mapM_eq_ok_iff.1 hSlots).imp ?_
    intro entry slot? hSlot
    exact fieldResult_iff.1 hSlot
  · rintro ⟨values, slots, hObject, rfl⟩
    refine ⟨values, provided_eq_ok_iff.2 hObject.entries,
      run_bind_eq_ok_iff.2 ⟨slots, ?_, rfl⟩⟩
    refine run_mapM_eq_ok_iff.2 (hObject.fields.imp ?_)
    intro entry slot? hSlot
    exact fieldResult_iff.2 hSlot

------------------------------------------------------------
-- Inputs
------------------------------------------------------------

/-
  How inputs of one kind are read: which of them is null, which
  have items or entries, and how leaf types parse them.
-/
structure InputForm (α : Type) where
  isNull : α → Bool
  nullError : TypeRef → InputError
  items? : α → Option (List α)
  entries? : α → Option (Entries α)
  parse : NamedType → α → Except LeafError Json

/- Literals, with values for the variables in them. -/
def literalForm (bindings : Entries Json) : InputForm Literal where
  isNull := Literal.isNull
  nullError := .nullLiteral
  items?
    | .list items => some items
    | _ => none
  entries?
    | .object entries => some entries
    | _ => none
  parse type input := type.parseLiteral input bindings

/- Runtime values. -/
def valueForm : InputForm Json where
  isNull := Json.isNull
  nullError := .nullValue
  items?
    | .array items => some items
    | _ => none
  entries?
    | .object entries => some entries
    | _ => none
  parse := NamedType.parseValue

/-
  An input coerced to a type, given the coercions of its parts
  and of defaults.
-/
def InputForm.step
    (form : InputForm α)
    (schema : Schema)
    (coerce : TypeRef → α → Coercion InputError Json)
    (fallback : TypeRef → Literal → Coercion InputError Json)
    (ref : TypeRef)
    (input : α) : Coercion InputError Json :=
  if form.isNull input then
    if ref.nullable then
      pure .null
    else
      throw (form.nullError ref)
  else
    match ref with
    | .list inner _ _ =>
        match form.items? input with
        | some items => do
            let items ← items.mapM (coerce inner)
            return .array items
        | none => do
            let item ← coerce inner input
            return .array [item]
    | .named name _ _ => do
        match ← inputType schema name with
        | .defined (.inputObject type) =>
            match form.entries? input with
            | some entries =>
                provided coerce type entries >>=
                  completeObject fallback type
            | none => throw (.notObject type.name)
        | type => ofLeaf (form.parse type input)

/- Literals other than variables are coerced by their form. -/
theorem literal_eq_step
    {schema : Schema}
    {bindings : Entries Json}
    {fuel : Nat}
    {ref : TypeRef}
    {input : Literal}
    (hInput : ∀ name, input ≠ .variable name) :
    literal schema bindings (fuel + 1) ref input =
      (literalForm bindings).step schema
        (literal schema bindings fuel)
        (literal schema bindings fuel) ref input := by
  cases input with
  | «variable» name => exact absurd rfl (hInput name)
  | _ => cases ref <;> rfl

/- Values are coerced by their form. -/
theorem value_eq_step
    {schema : Schema}
    {fuel : Nat}
    {ref : TypeRef}
    {input : Json} :
    value schema (fuel + 1) ref input =
      valueForm.step schema (value schema fuel)
        (literal schema [] fuel) ref input := by
  cases input <;> cases ref <;> rfl

/-
  What an input is coerced to, by its type and its form: null, a
  list of its items, a list of itself alone, an object, or what
  a leaf type makes of it.
-/
inductive InputResult
    (form : InputForm α)
    (schema : Schema)
    (coerce : TypeRef → α → Coercion InputError Json)
    (fallback : TypeRef → Literal → Coercion InputError Json) :
    TypeRef → α → Json → Prop where
  | null {ref : TypeRef} {input : α} :
      form.isNull input = true →
      ref.nullable = true →
      InputResult form schema coerce fallback ref input .null
  | items
      {inner : TypeRef}
      {nullable : Bool}
      {location : SourceLocation}
      {input : α}
      {items : List α}
      {results : List Json} :
      form.isNull input = false →
      form.items? input = some items →
      List.Forall₂
        (fun item result =>
          (coerce inner item).run = some (.ok result))
        items results →
      InputResult form schema coerce fallback
        (.list inner nullable location) input (.array results)
  | item
      {inner : TypeRef}
      {nullable : Bool}
      {location : SourceLocation}
      {input : α}
      {result : Json} :
      form.isNull input = false →
      form.items? input = none →
      (coerce inner input).run = some (.ok result) →
      InputResult form schema coerce fallback
        (.list inner nullable location) input (.array [result])
  | object
      {name : String}
      {nullable : Bool}
      {location : SourceLocation}
      {type : InputObjectType}
      {input : α}
      {entries : Entries α}
      {values : Entries Json}
      {slots : List (Option (String × Json))} :
      form.isNull input = false →
      schema.lookup name = some (.defined (.inputObject type)) →
      form.entries? input = some entries →
      ObjectResult coerce fallback type entries values slots →
      InputResult form schema coerce fallback
        (.named name nullable location) input
        (.object (slots.filterMap id))
  | leaf
      {name : String}
      {nullable : Bool}
      {location : SourceLocation}
      {type : NamedType}
      {input : α}
      {result : Json} :
      form.isNull input = false →
      schema.lookup name = some type →
      type.isLeaf = true →
      form.parse type input = .ok result →
      InputResult form schema coerce fallback
        (.named name nullable location) input result

section

variable {form : InputForm α} {schema : Schema}
variable {coerce : TypeRef → α → Coercion InputError Json}
variable {fallback : TypeRef → Literal → Coercion InputError Json}
variable {ref : TypeRef} {input : α} {result : Json}

/- Leaf types are what they parse, and nothing else is. -/
theorem ofLeaf_eq_ok_iff {parsed : Except LeafError Json} :
    (ofLeaf parsed).run = some (.ok result) ↔
      parsed = .ok result := by
  cases parsed with
  | error cause => exact ⟨nofun, nofun⟩
  | ok value =>
      constructor
      · rintro ⟨⟩
        rfl
      · rintro ⟨⟩
        rfl

/- The input type of a name is that which the schema has. -/
theorem inputType_eq_ok_iff {name : String} {type : NamedType} :
    (inputType schema name).run = some (.ok type) ↔
      schema.lookup name = some type ∧ type.isInput = true := by
  unfold inputType
  constructor
  · intro h
    split at h
    · next found hFound =>
        split at h
        · next hInput =>
            cases h
            exact ⟨hFound, hInput⟩
        · cases h
    · cases h
  · rintro ⟨hFound, hInput⟩
    simp only [hFound, if_pos hInput]
    rfl

theorem InputForm.inputResult_of_step
    (h : (form.step schema coerce fallback ref input).run =
      some (.ok result)) :
    InputResult form schema coerce fallback ref input result := by
  unfold InputForm.step at h
  split at h
  · next hNull =>
      split at h
      · next hNullable =>
          cases h
          exact .null hNull hNullable
      · cases h
  · next hNull =>
      have hNull := Bool.eq_false_iff.2 hNull
      split at h
      · split at h
        · next items hItems =>
            rcases run_bind_eq_ok_iff.1 h with
              ⟨results, hResults, hLast⟩
            cases hLast
            exact .items hNull hItems (forall₂_of_mapM hResults)
        · next hItems =>
            rcases run_bind_eq_ok_iff.1 h with
              ⟨only, hOnly, hLast⟩
            cases hLast
            exact .item hNull hItems hOnly
      · rcases run_bind_eq_ok_iff.1 h with ⟨type, hType, h⟩
        rcases inputType_eq_ok_iff.1 hType with ⟨hFound, hInput⟩
        split at h
        · split at h
          · next entries hEntries =>
              rcases objectResult_iff.1 h with
                ⟨values, slots, hObject, rfl⟩
              exact .object hNull hFound hEntries hObject
          · cases h
        · next hNotObject =>
            have hLeaf : type.isLeaf = true := by
              cases type with
              | builtin scalar => rfl
              | defined type =>
                  cases type with
                  | enum _ => rfl
                  | scalar _ => rfl
                  | inputObject type =>
                      exact absurd rfl (hNotObject type)
                  | object _ => cases hInput
                  | interface _ => cases hInput
                  | union _ => cases hInput
            exact .leaf hNull hFound hLeaf
              (ofLeaf_eq_ok_iff.1 h)

theorem InputResult.run_step
    (h : InputResult form schema coerce fallback ref input
      result) :
    (form.step schema coerce fallback ref input).run =
      some (.ok result) := by
  unfold InputForm.step
  cases h with
  | null hNull hNullable =>
      rw [if_pos hNull, if_pos hNullable]
      rfl
  | items hNull hItems hResults =>
      rw [if_neg (by simp [hNull])]
      simp only [hItems]
      exact run_bind_eq_ok_iff.2
        ⟨_, mapM_of_forall₂ hResults, rfl⟩
  | item hNull hItems hOnly =>
      rw [if_neg (by simp [hNull])]
      simp only [hItems]
      exact run_bind_eq_ok_iff.2 ⟨_, hOnly, rfl⟩
  | object hNull hFound hEntries hObject =>
      rw [if_neg (by simp [hNull])]
      simp only [inputType_of_lookup hFound, pure_bind, hEntries]
      exact objectResult_iff.2 ⟨_, _, hObject, rfl⟩
  | @leaf name _ _ type _ _ hNull hFound hLeaf hParsed =>
      rw [if_neg (by simp [hNull])]
      simp only [inputType_of_isLeaf hFound hLeaf, pure_bind]
      split
      · cases hLeaf
      · exact ofLeaf_eq_ok_iff.2 hParsed

end

/- What literals other than variables are coerced to. -/
theorem literal_run_iff
    {schema : Schema}
    {bindings : Entries Json}
    {fuel : Nat}
    {ref : TypeRef}
    {input : Literal}
    {result : Json}
    (hInput : ∀ name, input ≠ .variable name) :
    (literal schema bindings (fuel + 1) ref input).run =
        some (.ok result) ↔
      InputResult (literalForm bindings) schema
        (literal schema bindings fuel)
        (literal schema bindings fuel) ref input result := by
  rw [literal_eq_step hInput]
  exact ⟨InputForm.inputResult_of_step, InputResult.run_step⟩

/- What values are coerced to. -/
theorem value_run_iff
    {schema : Schema}
    {fuel : Nat}
    {ref : TypeRef}
    {input result : Json} :
    (value schema (fuel + 1) ref input).run =
        some (.ok result) ↔
      InputResult valueForm schema (value schema fuel)
        (literal schema [] fuel) ref input result := by
  rw [value_eq_step]
  exact ⟨InputForm.inputResult_of_step, InputResult.run_step⟩

end Coercion

end GraphQL
