import GraphQL.Proofs.Results
import GraphQL.Proofs.Execution.Constants
import GraphQL.Proofs.Execution.InputResults
import GraphQL.Proofs.Execution.Outcome

/-
  Coerced values fit the types that they are coerced to.

  A value fits a type if its shape is that of the type at every
  depth. Where scalars have no hooks to parse values with, and
  defaults are constants, every value that is coerced fits.

  Key definitions include:
    * `BuiltinScalar.HasShape`
    * `Schema.Fits`, `Schema.FitsField`

  Main declarations:
    * `Schema.fits_of_inputResult`
    * `Schema.fits_of_literal`, `Schema.fits_of_value`
-/

------------------------------------------------------------
-- Values That Fit
------------------------------------------------------------

namespace GraphQL

/- The shape of the values of a built-in scalar. -/
def BuiltinScalar.HasShape : BuiltinScalar → Json → Prop
| boolean, value => ∃ b, value = .bool b
| float, value => ∃ n, value = .number n
| id, value => ∃ text, value = .string text
| int, value =>
    ∃ n, -2147483648 ≤ n ∧ n ≤ 2147483647 ∧ value = .ofInt n
| string, value => ∃ text, value = .string text

namespace Schema

mutual

/-
  A value fits a type: null fits if the type admits it, a list
  fits if its items do, built-in scalars have values of their
  shape, enums the internal values of theirs, and other scalars
  all but null. An object has entries for fields of its type,
  in their order, and lacks no field that is not null or that
  has a default.
-/
inductive Fits (schema : Schema) : TypeRef → Json → Prop where
  | null {ref : TypeRef} :
      ref.nullable = true →
      Fits schema ref .null
  | list
      {inner : TypeRef}
      {nullable : Bool}
      {location : SourceLocation}
      {items : List Json} :
      (∀ item ∈ items, Fits schema inner item) →
      Fits schema (.list inner nullable location) (.array items)
  | builtin
      {name : String}
      {nullable : Bool}
      {location : SourceLocation}
      {scalar : BuiltinScalar}
      {value : Json} :
      schema.lookup name = some (.builtin scalar) →
      scalar.HasShape value →
      Fits schema (.named name nullable location) value
  | enum
      {name : String}
      {nullable : Bool}
      {location : SourceLocation}
      {type : EnumType}
      {value : EnumValue} :
      schema.lookup name = some (.defined (.enum type)) →
      value ∈ type.values →
      Fits schema (.named name nullable location) value.value
  | scalar
      {name : String}
      {nullable : Bool}
      {location : SourceLocation}
      {type : ScalarType}
      {value : Json} :
      schema.lookup name = some (.defined (.scalar type)) →
      value.isNull = false →
      Fits schema (.named name nullable location) value
  | object
      {name : String}
      {nullable : Bool}
      {location : SourceLocation}
      {type : InputObjectType}
      {entries : Entries Json} :
      schema.lookup name = some (.defined (.inputObject type)) →
      (Entries.names entries).Sublist
        (Entries.names type.fields) →
      (∀ field ∈ type.fields,
        (field.2.type.nullable = false ∨
          field.2.default.isSome = true) →
        field.1 ∈ Entries.names entries) →
      (∀ entry ∈ entries, FitsField schema type entry) →
      Fits schema (.named name nullable location)
        (.object entries)

/- An entry fits the field of its name. -/
inductive FitsField (schema : Schema) :
    InputObjectType → String × Json → Prop where
  | intro
      {type : InputObjectType}
      {name : String}
      {field : InputValue}
      {value : Json} :
      (name, field) ∈ type.fields →
      Fits schema field.type value →
      FitsField schema type (name, value)

end

end Schema

------------------------------------------------------------
-- Objects
------------------------------------------------------------

namespace Coercion

open Results (exists_of_forall₂_of_mem)

variable {α : Type}
variable {schema : Schema}
variable {type : InputObjectType}
variable {coerce : TypeRef → α → Coercion InputError Json}
variable {fallback : TypeRef → Literal → Coercion InputError Json}
variable {values : Entries Json}

/- An entry that a field is given bears its name. -/
theorem FieldResult.name_eq
    {name : String}
    {field : InputValue}
    {slot : String × Json}
    (h : FieldResult fallback values name field (some slot)) :
    slot.1 = name := by
  cases h with
  | given _ _ => rfl
  | default _ _ _ => rfl

/- Fields that must not be absent are given an entry. -/
theorem FieldResult.ne_none
    {name : String}
    {field : InputValue}
    (h : FieldResult fallback values name field none)
    (hField : field.type.nullable = false ∨
      field.default.isSome = true) : False := by
  cases h with
  | absent _ hDefault hNullable =>
      rcases hField with hField | hField
      · rw [hNullable] at hField
        cases hField
      · rw [hDefault] at hField
        cases hField

/- Entries are in the order of the fields. -/
theorem names_sublist
    {fields : Entries InputValue}
    {slots : List (Option (String × Json))}
    (h : List.Forall₂
      (fun entry slot? =>
        FieldResult fallback values entry.1 entry.2 slot?)
      fields slots) :
    (Entries.names (slots.filterMap id)).Sublist
      (Entries.names fields) := by
  induction h with
  | nil => exact .slnil
  | @cons entry slot? fields slots hField _ ih =>
      cases slot? with
      | none => exact ih.cons entry.1
      | some slot =>
          simp only [Entries.names, List.filterMap_cons, id_eq,
            List.map_cons, hField.name_eq]
          exact ih.cons_cons entry.1

variable {entries : Entries α}
variable {slots : List (Option (String × Json))}

/- Each field has an entry, unless it may be absent. -/
theorem ObjectResult.mem_names
    (h : ObjectResult coerce fallback type entries values slots)
    {field : String × InputValue}
    (hField : field ∈ type.fields)
    (hRequired : field.2.type.nullable = false ∨
      field.2.default.isSome = true) :
    field.1 ∈ Entries.names (slots.filterMap id) := by
  rcases exists_of_forall₂_of_mem h.fields.flip hField with
    ⟨slot?, hSlot, hResult⟩
  cases slot? with
  | none => exact (hResult.ne_none hRequired).elim
  | some slot =>
      rw [← hResult.name_eq]
      exact List.mem_map.2
        ⟨slot, List.mem_filterMap.2 ⟨some slot, hSlot, rfl⟩, rfl⟩

/-
  An entry of an object is one of the input, coerced to the
  field of its name, or it is the default of a field.
-/
theorem ObjectResult.exists_field
    (h : ObjectResult coerce fallback type entries values slots)
    {slot : String × Json}
    (hSlot : slot ∈ slots.filterMap id) :
    (∃ entry ∈ entries, ∃ field,
      (slot.1, field) ∈ type.fields ∧
        (coerce field.type entry.2).run = some (.ok slot.2)) ∨
      ∃ field literal,
        (slot.1, field) ∈ type.fields ∧
          field.default = some literal ∧
          (fallback field.type literal).run =
            some (.ok slot.2) := by
  rcases List.mem_filterMap.1 hSlot with ⟨_, hMem, rfl⟩
  rcases exists_of_forall₂_of_mem h.fields hMem with
    ⟨⟨name, field⟩, hField, hResult⟩
  cases hResult with
  | given hValue _ =>
      have hMem := Entries.mem_of_get? hValue
      rcases exists_of_forall₂_of_mem h.entries hMem with
        ⟨entry, hEntry, hName, found, hFound, hCoerced⟩
      have hFound := Entries.mem_of_get? hFound
      rw [← hName] at hFound
      exact .inl ⟨entry, hEntry, found, hFound, hCoerced⟩
  | default _ hDefault hFallback =>
      exact .inr ⟨field, _, hField, hDefault, hFallback⟩

end Coercion

------------------------------------------------------------
-- Inputs
------------------------------------------------------------

namespace Schema

open Coercion
open Results (exists_of_forall₂_of_mem)

variable {α : Type}
variable {schema : Schema}

/-
  What an input is coerced to fits, if what its parts, defaults
  and leaves are coerced to does.
-/
theorem fits_of_inputResult
    {form : InputForm α}
    {coerce : TypeRef → α → Coercion InputError Json}
    {fallback : TypeRef → Literal → Coercion InputError Json}
    {ref : TypeRef}
    {input : α}
    {result : Json}
    (hItems : ∀ items, form.items? input = some items →
      ∀ item ∈ items, ∀ inner result,
        (coerce inner item).run = some (.ok result) →
        schema.Fits inner result)
    (hItem : ∀ inner result,
      (coerce inner input).run = some (.ok result) →
      schema.Fits inner result)
    (hEntries : ∀ entries, form.entries? input = some entries →
      ∀ entry ∈ entries, ∀ inner result,
        (coerce inner entry.2).run = some (.ok result) →
        schema.Fits inner result)
    (hFallback : ∀ field ∈ schema.inputFields, ∀ literal result,
      field.default = some literal →
      (fallback field.type literal).run = some (.ok result) →
      schema.Fits field.type result)
    (hLeaf : ∀ name nullable location type result,
      form.isNull input = false →
      schema.lookup name = some type →
      form.parse type input = .ok result →
      schema.Fits (.named name nullable location) result)
    (h : InputResult form schema coerce fallback ref input
      result) :
    schema.Fits ref result := by
  cases h with
  | null _ hNullable => exact .null hNullable
  | items _ hFound hResults =>
      apply Fits.list
      intro result hResult
      rcases exists_of_forall₂_of_mem hResults hResult with
        ⟨item, hMem, hCoerced⟩
      exact hItems _ hFound item hMem _ result hCoerced
  | item _ _ hCoerced =>
      apply Fits.list
      intro result hResult
      rw [List.mem_singleton.1 hResult]
      exact hItem _ _ hCoerced
  | object _ hLookup hFound hObject =>
      apply Fits.object hLookup
      · exact names_sublist hObject.fields
      · intro field hField hRequired
        exact hObject.mem_names hField hRequired
      · rintro ⟨name, value⟩ hEntry
        rcases hObject.exists_field hEntry with
          ⟨entry, hMem, field, hField, hCoerced⟩ |
            ⟨field, literal, hField, hDefault, hCoerced⟩
        · exact .intro hField
            (hEntries _ hFound entry hMem _ _ hCoerced)
        · exact .intro hField
            (hFallback field (mem_inputFields hLookup hField)
              literal _ hDefault hCoerced)
  | leaf hNull hLookup _ hParsed =>
      exact hLeaf _ _ _ _ _ hNull hLookup hParsed

------------------------------------------------------------
-- Leaves
------------------------------------------------------------

/- What is kept as an integer has at most 32 bits. -/
theorem int32_hasShape
    {n : Int}
    {printed : String}
    {result : Json}
    (h : BuiltinScalar.int32 n printed = .ok result) :
    BuiltinScalar.int.HasShape result := by
  unfold BuiltinScalar.int32 at h
  split at h
  · next hFits =>
      cases h
      have hBounds : -(twoTo 31 : Int) ≤ n ∧ n < twoTo 31 := by
        simpa [BuiltinScalar.fits32] using hFits
      have hPower : (twoTo 31 : Int) = 2147483648 := by decide
      rw [hPower] at hBounds
      exact ⟨n, hBounds.1, by omega, rfl⟩
  · cases h

/- Values are parsed into values of the shape of the scalar. -/
theorem hasShape_of_parseValue
    {scalar : BuiltinScalar}
    {input result : Json}
    (h : scalar.parseValue input = .ok result) :
    scalar.HasShape result := by
  cases scalar with
  | boolean =>
      cases input with
      | bool _ => cases h; exact ⟨_, rfl⟩
      | _ => cases h
  | float =>
      cases input with
      | number _ => cases h; exact ⟨_, rfl⟩
      | _ => cases h
  | id =>
      cases input with
      | string _ => cases h; exact ⟨_, rfl⟩
      | number n =>
          cases n with
          | integer _ => cases h; exact ⟨_, rfl⟩
          | fraction _ => cases h
      | _ => cases h
  | int =>
      cases input with
      | number n =>
          simp only [BuiltinScalar.parseValue] at h
          split at h
          · exact int32_hasShape h
          · cases h
      | _ => cases h
  | string =>
      cases input with
      | string _ => cases h; exact ⟨_, rfl⟩
      | _ => cases h

/- So are literals, unless they are floats without a value. -/
theorem hasShape_of_parseLiteral
    {scalar : BuiltinScalar}
    {input : Literal}
    {result : Json}
    (hFinite : ∀ negative, input ≠ .float (.infinite negative))
    (h : scalar.parseLiteral input = .ok result) :
    scalar.HasShape result := by
  cases scalar with
  | boolean =>
      cases input with
      | boolean _ => cases h; exact ⟨_, rfl⟩
      | _ => cases h
  | float =>
      cases input with
      | float x =>
          cases x with
          | finite _ => cases h; exact ⟨_, rfl⟩
          | infinite negative =>
              exact absurd rfl (hFinite negative)
      | int _ => cases h; exact ⟨_, rfl⟩
      | _ => cases h
  | id =>
      cases input with
      | string _ => cases h; exact ⟨_, rfl⟩
      | int _ => cases h; exact ⟨_, rfl⟩
      | _ => cases h
  | int =>
      cases input with
      | int _ => exact int32_hasShape h
      | _ => cases h
  | string =>
      cases input with
      | string _ => cases h; exact ⟨_, rfl⟩
      | _ => cases h

/- The values of an enum are those that it has names for. -/
theorem exists_of_parseName
    {type : EnumType}
    {name : String}
    {result : Json}
    (h : type.parseName name = .ok result) :
    ∃ value ∈ type.values, result = value.value := by
  unfold EnumType.parseName at h
  split at h
  · next value hValue =>
      cases h
      exact ⟨value, List.mem_of_find?_eq_some hValue, rfl⟩
  · cases h

/- What leaf types parse from values fits them. -/
theorem fits_of_parseValue
    (hHooks : schema.WithoutParseHooks)
    {name : String}
    {nullable : Bool}
    {location : SourceLocation}
    {type : NamedType}
    {input result : Json}
    (hInput : input.isNull = false)
    (hLookup : schema.lookup name = some type)
    (hParsed : type.parseValue input = .ok result) :
    schema.Fits (.named name nullable location) result := by
  cases type with
  | builtin scalar =>
      exact .builtin hLookup (hasShape_of_parseValue hParsed)
  | defined type =>
      cases type with
      | enum type =>
          cases input with
          | string text =>
              rcases exists_of_parseName hParsed with
                ⟨value, hValue, rfl⟩
              exact .enum hLookup hValue
          | _ => cases hParsed
      | scalar type =>
          have hHook :=
            (hHooks type (TypeGraph.mem_of_lookup hLookup)).1
          simp only [NamedType.parseValue, hHook] at hParsed
          cases hParsed
          exact .scalar hLookup hInput
      | object _ => cases hParsed
      | interface _ => cases hParsed
      | union _ => cases hParsed
      | inputObject _ => cases hParsed

theorem fits_of_parseLiteral
    (hHooks : schema.WithoutParseHooks)
    {name : String}
    {nullable : Bool}
    {location : SourceLocation}
    {type : NamedType}
    {input : Literal}
    {result : Json}
    (hVariables : input.WithoutVariables)
    (hFloats : input.FiniteFloats)
    (hInput : input.isNull = false)
    (hLookup : schema.lookup name = some type)
    (hParsed : type.parseLiteral input [] = .ok result) :
    schema.Fits (.named name nullable location) result := by
  cases type with
  | builtin scalar =>
      exact .builtin hLookup
        (hasShape_of_parseLiteral hFloats.self hParsed)
  | defined type =>
      cases type with
      | enum type =>
          cases input with
          | enum text =>
              rcases exists_of_parseName hParsed with
                ⟨value, hValue, rfl⟩
              exact .enum hLookup hValue
          | _ => cases hParsed
      | scalar type =>
          have hHook :=
            (hHooks type (TypeGraph.mem_of_lookup hLookup)).2
          simp only [NamedType.parseLiteral, hHook] at hParsed
          cases hParsed
          refine .scalar hLookup ?_
          rw [Literal.isNull_toJson hVariables hFloats, hInput]
      | object _ => cases hParsed
      | interface _ => cases hParsed
      | union _ => cases hParsed
      | inputObject _ => cases hParsed

------------------------------------------------------------
-- Literals And Values
------------------------------------------------------------

variable (hHooks : schema.WithoutParseHooks)
variable (hDefaults :
  schema.DefaultsSatisfy Literal.FiniteConstant)

include hHooks hDefaults

/- Constants are coerced to values that fit. -/
theorem fits_of_literal
    {fuel : Nat}
    {ref : TypeRef}
    {input : Literal}
    {result : Json}
    (hInput : input.FiniteConstant)
    (h : (literal schema [] fuel ref input).run =
      some (.ok result)) :
    schema.Fits ref result := by
  induction fuel generalizing ref input result with
  | zero => cases h
  | succ fuel ih =>
      rcases hInput with ⟨hVariables, hFloats⟩
      rw [literal_run_iff hVariables.self] at h
      refine fits_of_inputResult ?_ ?_ ?_ ?_ ?_ h
      · intro items hFound item hItem inner result hCoerced
        cases input with
        | list items =>
            cases hFound
            exact ih ⟨hVariables.item hItem, hFloats.item hItem⟩
              hCoerced
        | _ => cases hFound
      · intro inner result hCoerced
        exact ih ⟨hVariables, hFloats⟩ hCoerced
      · intro entries hFound entry hEntry inner result hCoerced
        cases input with
        | object entries =>
            cases hFound
            exact ih
              ⟨hVariables.entry hEntry, hFloats.entry hEntry⟩
              hCoerced
        | _ => cases hFound
      · intro field hField literal result hDefault hCoerced
        exact ih (hDefaults field hField literal hDefault)
          hCoerced
      · intro name nullable location type result hNull hLookup
          hParsed
        exact fits_of_parseLiteral hHooks hVariables hFloats
          hNull hLookup hParsed

/-
  Where scalars have no hooks to parse values with, and defaults
  are constants whose floats are finite, every value that is
  coerced to a type becomes one that fits the type.
-/
theorem fits_of_value
    {fuel : Nat}
    {ref : TypeRef}
    {input result : Json}
    (h : (value schema fuel ref input).run =
      some (.ok result)) :
    schema.Fits ref result := by
  induction fuel generalizing ref input result with
  | zero => cases h
  | succ fuel ih =>
      rw [value_run_iff] at h
      refine fits_of_inputResult ?_ ?_ ?_ ?_ ?_ h
      · intro items _ item _ inner result hCoerced
        exact ih hCoerced
      · intro inner result hCoerced
        exact ih hCoerced
      · intro entries _ entry _ inner result hCoerced
        exact ih hCoerced
      · intro field hField literal result hDefault hCoerced
        exact fits_of_literal hHooks hDefaults
          (hDefaults field hField literal hDefault) hCoerced
      · intro name nullable location type result hNull hLookup
          hParsed
        exact fits_of_parseValue hHooks hNull hLookup hParsed

end Schema

/- A single page is a list of pages, and lacks nothing. -/
theorem Paging.pages_fit :
    schema.WithoutParseHooks ∧
      schema.DefaultsSatisfy Literal.FiniteConstant ∧
      (Coercion.value schema 5
          (.ofList (.ofName "Page" false) false)
          (.object [])).run =
        some (.ok (.array
          [.object [("window", .object [("size", .ofInt 10)])]])) ∧
      schema.Fits (.ofList (.ofName "Page" false) false)
        (.array
          [.object [("window", .object [("size", .ofInt 10)])]]) := by
  have hRun : (Coercion.value schema 5
      (.ofList (.ofName "Page" false) false) (.object [])).run =
        some (.ok (.array
          [.object [("window",
            .object [("size", .ofInt 10)])]])) := by
    with_unfolding_all rfl
  exact ⟨withoutParseHooks, defaults_finiteConstant, hRun,
    Schema.fits_of_value withoutParseHooks
      defaults_finiteConstant hRun⟩

end GraphQL
