import Mathlib.Logic.Relation
import GraphQL.Proofs.Execution.LiteralValues
import GraphQL.Proofs.Execution.Places

/-
  Variables that are null, and where they are refused.

  A variable in a literal is replaced by its value, whatever the
  type there. What is given for an argument or for a field of an
  input object is looked at again: where the type does not admit
  null, null is refused. Items of lists and defaults are not
  looked at again, so that null may stand where they must not be
  null.

  Key definitions include:
    * `Coercion.Place`, `Coercion.Part`: places in inputs
    * `Coercion.Keeps`: what stands at a place is accepted
    * `Coercion.NullSafe`: no null is given where it must not be
    * `Coercion.StandsIn`: other values for the same variables

  Main declarations:
    * `Coercion.keeps_iff`
    * `Coercion.keeps_iff_of_standsIn`
    * `Coercion.refuses_null_variables`
-/

------------------------------------------------------------
-- Places
------------------------------------------------------------

namespace GraphQL

namespace Coercion

open Results (exists_of_forall₂_of_mem)

/- What an input is coerced for. -/
inductive Role where
  | argument
  | field
  | item
  | default
  deriving DecidableEq, Repr

/- Whether an operation gives the input for a name. -/
def Role.isGiven : Role → Bool
| argument | field => true
| item | default => false

/- Where an input stands: its role, and the type expected. -/
structure Place where
  role : Role
  type : TypeRef
  input : Literal

/-
  The places that coercion goes on to from a place: items of a
  list, an input that is the only item of one, the entries of
  an object, and the defaults of fields without an entry.
-/
inductive Part (schema : Schema) : Place → Place → Prop where
  | item
      {role : Role}
      {inner : TypeRef}
      {nullable : Bool}
      {location : SourceLocation}
      {items : List Literal}
      {item : Literal} :
      item ∈ items →
      Part schema
        ⟨role, .list inner nullable location, .list items⟩
        ⟨.item, inner, item⟩
  | only
      {role : Role}
      {inner : TypeRef}
      {nullable : Bool}
      {location : SourceLocation}
      {input : Literal} :
      input.isNull = false →
      (∀ name, input ≠ .variable name) →
      (∀ items, input ≠ .list items) →
      Part schema
        ⟨role, .list inner nullable location, input⟩
        ⟨.item, inner, input⟩
  | field
      {role : Role}
      {name : String}
      {nullable : Bool}
      {location : SourceLocation}
      {type : InputObjectType}
      {entries : Entries Literal}
      {key : String}
      {field : InputValue}
      {input : Literal} :
      schema.lookup name = some (.defined (.inputObject type)) →
      type.fields.get? key = some field →
      entries.get? key = some input →
      Part schema
        ⟨role, .named name nullable location, .object entries⟩
        ⟨.field, field.type, input⟩
  | default
      {role : Role}
      {name : String}
      {nullable : Bool}
      {location : SourceLocation}
      {type : InputObjectType}
      {entries : Entries Literal}
      {key : String}
      {field : InputValue}
      {input : Literal} :
      schema.lookup name = some (.defined (.inputObject type)) →
      (key, field) ∈ type.fields →
      entries.get? key = none →
      field.default = some input →
      Part schema
        ⟨role, .named name nullable location, .object entries⟩
        ⟨.default, field.type, input⟩

/- A place and all places that coercion goes on to from it. -/
abbrev Reaches (schema : Schema) : Place → Place → Prop :=
  Relation.ReflTransGen (Part schema)

/- Variables have no parts. -/
theorem not_part_of_variable
    {schema : Schema}
    {role : Role}
    {type : TypeRef}
    {name : String}
    {part : Place} :
    ¬Part schema ⟨role, type, .variable name⟩ part := by
  intro h
  cases h with
  | only _ hVariable _ => exact hVariable name rfl

/- Objects in the parts of an input repeat no names. -/
theorem Part.proper
    {schema : Schema}
    (hDefaults : schema.DefaultsSatisfy Literal.Proper)
    {place part : Place}
    (hPart : Part schema place part)
    (hInput : place.input.Proper) : part.input.Proper := by
  cases hPart with
  | item hItem => exact hInput.item hItem
  | only => exact hInput
  | field _ _ hEntry =>
      exact hInput.entry (Entries.mem_of_get? hEntry)
  | default hLookup hField _ hDefault =>
      exact hDefaults _ (Schema.mem_inputFields hLookup hField) _
        hDefault

------------------------------------------------------------
-- Places That Are Kept
------------------------------------------------------------

variable {schema : Schema}
variable {bindings others : Entries Json}
variable {fuel : Nat}
variable {place part : Place}

/-
  What stands at a place is accepted: it is coerced, and where
  it is given, null is admitted or not what it is coerced to.
-/
def Keeps
    (schema : Schema)
    (bindings : Entries Json)
    (fuel : Nat)
    (place : Place) : Prop :=
  ∃ result,
    (literal schema bindings fuel place.type place.input).run =
        some (.ok result) ∧
      (place.role.isGiven = true → result.isNull = true →
        place.type.nullable = true)

/- A variable that is null is given only where null may be. -/
def NullSafe (bindings : Entries Json) (place : Place) : Prop :=
  place.role.isGiven = true →
    ∀ name, place.input = .variable name →
      bindings.get? name = some .null →
        place.type.nullable = true

/- A variable that is accepted at a place is safe there. -/
theorem Keeps.nullSafe
    (h : Keeps schema bindings fuel place) :
    NullSafe bindings place := by
  rcases place with ⟨role, type, input⟩
  rintro hGiven name ⟨⟩ hNull
  rcases h with ⟨result, hResult, hKept⟩
  cases fuel with
  | zero => cases hResult
  | succ fuel =>
      simp only [literal, hNull] at hResult
      cases hResult
      exact hKept hGiven rfl

/- The entry of a name is coerced to what the name has. -/
theorem get?_of_entryResults
    {coerce : TypeRef → Literal → Coercion InputError Json}
    {type : InputObjectType}
    {entries : Entries Literal}
    {values : Entries Json}
    (h : List.Forall₂ (EntryResult coerce type) entries values)
    (key : String) :
    Option.Rel
      (fun input value => ∃ field,
        type.fields.get? key = some field ∧
          (coerce field.type input).run = some (.ok value))
      (entries.get? key) (values.get? key) := by
  induction h with
  | nil => exact .none
  | @cons entry slot entries values hEntry _ ih =>
      rcases entry with ⟨name, input⟩
      rcases slot with ⟨other, value⟩
      rcases hEntry with ⟨hOther, hCoerced⟩
      cases hOther
      by_cases hName : name = key
      · subst hName
        simpa only [Entries.get?, if_true] using
          Option.Rel.some hCoerced
      · simpa only [Entries.get?, if_neg hName] using ih

section

variable {coerce : TypeRef → Literal → Coercion InputError Json}
variable {type : InputObjectType}
variable {entries : Entries Literal}
variable {values : Entries Json}
variable {slots : List (Option (String × Json))}
variable {key : String} {field : InputValue} {input : Literal}

/- An entry is coerced for its field, which may refuse null. -/
theorem ObjectResult.exists_of_entry
    (h : ObjectResult coerce coerce type entries values slots)
    (hField : type.fields.get? key = some field)
    (hEntry : entries.get? key = some input) :
    ∃ value, values.get? key = some value ∧
      (coerce field.type input).run = some (.ok value) ∧
        (value.isNull = true → field.type.nullable = true) := by
  have hSame := get?_of_entryResults h.entries key
  rw [hEntry] at hSame
  cases hValue : values.get? key with
  | none =>
      rw [hValue] at hSame
      cases hSame
  | some value =>
      rw [hValue] at hSame
      cases hSame with
      | some hCoerced =>
          rcases hCoerced with ⟨found, hFound, hCoerced⟩
          cases hField.symm.trans hFound
          refine ⟨value, rfl, hCoerced, ?_⟩
          rcases exists_of_forall₂_of_mem h.fields.flip
              (Entries.mem_of_get? hField) with
            ⟨slot?, -, hSlot⟩
          cases hSlot with
          | given hGiven hNull =>
              cases hValue.symm.trans hGiven
              exact hNull
          | default hNone _ _ => cases hValue.symm.trans hNone
          | absent hNone _ _ => cases hValue.symm.trans hNone

/- The default of a field without an entry is coerced. -/
theorem ObjectResult.exists_of_default
    (h : ObjectResult coerce coerce type entries values slots)
    (hField : (key, field) ∈ type.fields)
    (hEntry : entries.get? key = none)
    (hDefault : field.default = some input) :
    ∃ value,
      (coerce field.type input).run = some (.ok value) := by
  have hSame := get?_of_entryResults h.entries key
  rw [hEntry] at hSame
  rcases exists_of_forall₂_of_mem h.fields.flip hField with
    ⟨slot?, -, hSlot⟩
  cases hSlot with
  | given hGiven _ =>
      rw [hGiven] at hSame
      cases hSame
  | default _ hFound hCoerced =>
      cases hDefault.symm.trans hFound
      exact ⟨_, hCoerced⟩
  | absent _ hFound _ => cases hDefault.symm.trans hFound

end

/- What is accepted is accepted with all of its parts. -/
theorem Keeps.of_part
    (h : Keeps schema bindings (fuel + 1) place)
    (hPart : Part schema place part) :
    Keeps schema bindings fuel part := by
  rcases h with ⟨result, hResult, -⟩
  have hInput : ∀ name, place.input ≠ .variable name := by
    intro name hName
    rcases place with ⟨role, type, input⟩
    cases hName
    exact not_part_of_variable hPart
  rw [literal_run_iff hInput] at hResult
  cases hPart with
  | item hItem =>
      cases hResult with
      | null hNull _ => cases hNull
      | items _ hItems hResults =>
          cases hItems
          rcases exists_of_forall₂_of_mem hResults.flip hItem with
            ⟨value, -, hValue⟩
          exact ⟨value, hValue, nofun⟩
      | item _ hItems _ => cases hItems
  | @only _ _ _ _ input hNotNull _ hNotList =>
      cases hResult with
      | null hNull _ => cases hNotNull.symm.trans hNull
      | items _ hItems _ =>
          cases input with
          | list items => exact absurd rfl (hNotList items)
          | _ => cases hItems
      | item _ _ hOnly => exact ⟨_, hOnly, nofun⟩
  | field hLookup hField hEntry =>
      cases hResult with
      | null hNull _ => cases hNull
      | object _ hFound hEntries hObject =>
          cases hEntries
          cases hLookup.symm.trans hFound
          rcases hObject.exists_of_entry hField hEntry with
            ⟨value, -, hValue, hNull⟩
          exact ⟨value, hValue, fun _ => hNull⟩
      | leaf _ hFound hLeaf _ =>
          cases hLookup.symm.trans hFound
          cases hLeaf
  | default hLookup hField hEntry hDefault =>
      cases hResult with
      | null hNull _ => cases hNull
      | object _ hFound hEntries hObject =>
          cases hEntries
          cases hLookup.symm.trans hFound
          rcases hObject.exists_of_default hField hEntry hDefault
            with ⟨value, hValue⟩
          exact ⟨value, hValue, nofun⟩
      | leaf _ hFound hLeaf _ =>
          cases hLookup.symm.trans hFound
          cases hLeaf

/- What is accepted is accepted wherever coercion goes on to. -/
theorem Keeps.of_reaches
    (h : Keeps schema bindings fuel place)
    (hReaches : Reaches schema place part) :
    ∃ less, Keeps schema bindings less part := by
  induction hReaches using Relation.ReflTransGen.head_induction_on
      generalizing fuel with
  | refl => exact ⟨fuel, h⟩
  | head hPart _ ih =>
      cases fuel with
      | zero =>
          rcases h with ⟨_, hResult, -⟩
          cases hResult
      | succ fuel => exact ih (h.of_part hPart)

/- Wherever coercion goes on to, null variables are safe. -/
theorem Keeps.nullSafe_of_reaches
    (h : Keeps schema bindings fuel place)
    (hReaches : Reaches schema place part) :
    NullSafe bindings part := by
  rcases h.of_reaches hReaches with ⟨_, hPart⟩
  exact hPart.nullSafe

------------------------------------------------------------
-- Shapes
------------------------------------------------------------

/-
  An input other than a variable is of the form that its type
  asks for, whatever its parts are coerced to: only entries of
  fields are given, none that is required is missing, and leaf
  types parse it.
-/
inductive Shaped (schema : Schema) (bindings : Entries Json) :
    Place → Prop where
  | null {role : Role} {type : TypeRef} :
      type.nullable = true →
      Shaped schema bindings ⟨role, type, .null⟩
  | list
      {role : Role}
      {inner : TypeRef}
      {nullable : Bool}
      {location : SourceLocation}
      {input : Literal} :
      input.isNull = false →
      Shaped schema bindings
        ⟨role, .list inner nullable location, input⟩
  | object
      {role : Role}
      {name : String}
      {nullable : Bool}
      {location : SourceLocation}
      {type : InputObjectType}
      {entries : Entries Literal} :
      schema.lookup name = some (.defined (.inputObject type)) →
      (∀ entry ∈ entries, ∃ field,
        type.fields.get? entry.1 = some field) →
      (∀ entry ∈ type.fields, entries.get? entry.1 = none →
        entry.2.default = none → entry.2.type.nullable = true) →
      Shaped schema bindings
        ⟨role, .named name nullable location, .object entries⟩
  | leaf
      {role : Role}
      {name : String}
      {nullable : Bool}
      {location : SourceLocation}
      {type : NamedType}
      {input : Literal}
      {result : Json} :
      input.isNull = false →
      schema.lookup name = some type →
      type.isLeaf = true →
      type.parseLiteral input bindings = .ok result →
      (role.isGiven = true → result.isNull = true →
        nullable = true) →
      Shaped schema bindings
        ⟨role, .named name nullable location, input⟩

/- Only the null literal is null. -/
theorem eq_null_of_isNull
    {input : Literal}
    (h : input.isNull = true) : input = .null := by
  cases input <;> first | rfl | cases h

/- What is accepted is of the form that its type asks for. -/
theorem Keeps.shaped
    (hInput : ∀ name, place.input ≠ .variable name)
    (h : Keeps schema bindings (fuel + 1) place) :
    Shaped schema bindings place := by
  rcases place with ⟨role, type, input⟩
  rcases h with ⟨result, hResult, hKept⟩
  rw [literal_run_iff hInput] at hResult
  cases hResult with
  | null hNull hNullable =>
      cases eq_null_of_isNull hNull
      exact .null hNullable
  | items hNull _ _ => exact .list hNull
  | item hNull _ _ => exact .list hNull
  | object hNull hLookup hEntries hObject =>
      cases input with
      | object entries =>
          cases hEntries
          refine .object hLookup ?_ ?_
          · intro entry hEntry
            rcases exists_of_forall₂_of_mem hObject.entries.flip
                hEntry with
              ⟨_, -, hSlot⟩
            rcases hSlot.coerced with ⟨field, hField, -⟩
            exact ⟨field, hField⟩
          · intro entry hField hEntry hDefault
            have hSame := get?_of_entryResults hObject.entries
              entry.1
            rw [hEntry] at hSame
            rcases exists_of_forall₂_of_mem hObject.fields.flip
                hField with
              ⟨_, -, hSlot⟩
            cases hSlot with
            | given hGiven _ =>
                rw [hGiven] at hSame
                cases hSame
            | default _ hFound _ =>
                cases hDefault.symm.trans hFound
            | absent _ _ hNullable => exact hNullable
      | _ => cases hEntries
  | leaf hNull hLookup hLeaf hParsed =>
      exact .leaf hNull hLookup hLeaf hParsed hKept

/- Members that each go with something go with a list. -/
theorem exists_forall₂
    {α β : Type}
    {Goes : α → β → Prop}
    {members : List α}
    (h : ∀ a ∈ members, ∃ b, Goes a b) :
    ∃ results, List.Forall₂ Goes members results := by
  induction members with
  | nil => exact ⟨[], .nil⟩
  | cons a rest ih =>
      rcases h a List.mem_cons_self with ⟨b, hFirst⟩
      rcases ih fun c hc => h c (List.mem_cons_of_mem a hc) with
        ⟨results, hRest⟩
      exact ⟨b :: results, .cons hFirst hRest⟩

/- No input object of a schema has two fields of one name. -/
def FieldsDistinct (schema : Schema) : Prop :=
  ∀ type, .defined (.inputObject type) ∈ schema.types.types →
    (type.fields.map Prod.fst).Nodup

/- An object is accepted if its entries and defaults are. -/
theorem exists_objectResult
    (coerce : TypeRef → Literal → Coercion InputError Json)
    {type : InputObjectType}
    {entries : Entries Literal}
    (hFields : (type.fields.map Prod.fst).Nodup)
    (hEntries : (entries.map Prod.fst).Nodup)
    (hKnown : ∀ entry ∈ entries, ∃ field,
      type.fields.get? entry.1 = some field)
    (hMissing : ∀ entry ∈ type.fields,
      entries.get? entry.1 = none → entry.2.default = none →
        entry.2.type.nullable = true)
    (hGiven : ∀ key field input,
      type.fields.get? key = some field →
      entries.get? key = some input →
      ∃ value,
        (coerce field.type input).run = some (.ok value) ∧
          (value.isNull = true → field.type.nullable = true))
    (hDefault : ∀ key field input,
      (key, field) ∈ type.fields →
      entries.get? key = none → field.default = some input →
      ∃ value,
        (coerce field.type input).run = some (.ok value)) :
    ∃ values slots,
      ObjectResult coerce coerce type entries values slots := by
  have hSlots : ∀ entry ∈ entries, ∃ slot,
      EntryResult coerce type entry slot := by
    rintro ⟨key, input⟩ hEntry
    rcases hKnown _ hEntry with ⟨field, hField⟩
    rcases hGiven key field input hField
        (Entries.get?_eq_some_of_mem hEntries hEntry) with
      ⟨value, hValue, -⟩
    exact ⟨(key, value), rfl, field, hField, hValue⟩
  rcases exists_forall₂ hSlots with ⟨values, hValues⟩
  have hResults : ∀ entry ∈ type.fields, ∃ slot?,
      FieldResult coerce values entry.1 entry.2 slot? := by
    rintro ⟨key, field⟩ hField
    have hFound := Entries.get?_eq_some_of_mem hFields hField
    have hSame := get?_of_entryResults hValues key
    generalize hValue : Entries.get? values key = value? at hSame
    cases hEntry : entries.get? key with
    | some input =>
        rw [hEntry] at hSame
        cases hSame with
        | some hCoerced =>
            rcases hCoerced with ⟨_, hOther, hCoerced⟩
            cases hFound.symm.trans hOther
            rcases hGiven key field input hFound hEntry with
              ⟨same, hSame, hNull⟩
            cases hCoerced.symm.trans hSame
            exact ⟨_, .given hValue hNull⟩
    | none =>
        rw [hEntry] at hSame
        cases hSame
        cases hLiteral : field.default with
        | some input =>
            rcases hDefault key field input hField hEntry
                hLiteral with
              ⟨value, hCoerced⟩
            exact ⟨_, .default hValue hLiteral hCoerced⟩
        | none =>
            exact ⟨none, .absent hValue hLiteral
              (hMissing _ hField hEntry hLiteral)⟩
  rcases exists_forall₂ hResults with ⟨slots, hSlots⟩
  exact ⟨values, slots, hValues, hSlots⟩

/- What has its form, and whose parts are accepted, is. -/
theorem keeps_of_parts
    (hFields : FieldsDistinct schema)
    (hInput : ∀ name, place.input ≠ .variable name)
    (hProper : place.input.Proper)
    (hShaped : Shaped schema bindings place)
    (hParts : ∀ part, Part schema place part →
      Keeps schema bindings fuel part) :
    Keeps schema bindings (fuel + 1) place := by
  rcases place with ⟨role, type, input⟩
  unfold Keeps
  simp only [literal_run_iff hInput]
  cases hShaped with
  | null hNullable =>
      exact ⟨_, .null rfl hNullable, fun _ _ => hNullable⟩
  | @list _ inner nullable location _ hNull =>
      by_cases hList : ∃ items, input = .list items
      · rcases hList with ⟨items, rfl⟩
        have hItems : ∀ item ∈ items, ∃ result,
            (literal schema bindings fuel inner item).run =
              some (.ok result) := by
          intro item hItem
          rcases hParts _ (.item hItem) with ⟨result, hResult, -⟩
          exact ⟨result, hResult⟩
        rcases exists_forall₂ hItems with ⟨results, hResults⟩
        exact ⟨_, .items rfl rfl hResults, nofun⟩
      · have hNotList := not_exists.1 hList
        have hNoItems :
            (literalForm bindings).items? input = none := by
          cases input with
          | list items => exact absurd rfl (hNotList items)
          | _ => rfl
        rcases hParts _ (.only hNull hInput hNotList) with
          ⟨result, hResult, -⟩
        exact ⟨_, .item hNull hNoItems hResult, nofun⟩
  | object hLookup hKnown hMissing =>
      have hEntries := hProper.self _ rfl
      have hDistinct := hFields _ (TypeGraph.mem_of_lookup hLookup)
      have hObject := exists_objectResult
        (literal schema bindings fuel) hDistinct hEntries hKnown
        hMissing ?_ ?_
      · rcases hObject with ⟨values, slots, hObject⟩
        exact ⟨_, .object rfl hLookup rfl hObject, nofun⟩
      · intro key field input hField hEntry
        rcases hParts _ (.field hLookup hField hEntry) with
          ⟨value, hValue, hKept⟩
        exact ⟨value, hValue, hKept rfl⟩
      · intro key field input hField hEntry hDefault
        rcases hParts _ (.default hLookup hField hEntry hDefault)
          with ⟨value, hValue, -⟩
        exact ⟨value, hValue⟩
  | leaf hNull hLookup hLeaf hParsed hKept =>
      exact ⟨_, .leaf hNull hLookup hLeaf hParsed, hKept⟩

/-
  An input other than a variable is accepted exactly if it has
  the form that its type asks for and its parts are accepted.
-/
theorem keeps_iff
    (hFields : FieldsDistinct schema)
    (hInput : ∀ name, place.input ≠ .variable name)
    (hProper : place.input.Proper) :
    Keeps schema bindings (fuel + 1) place ↔
      Shaped schema bindings place ∧
        ∀ part, Part schema place part →
          Keeps schema bindings fuel part := by
  constructor
  · intro h
    exact ⟨h.shaped hInput, fun _ hPart => h.of_part hPart⟩
  · rintro ⟨hShaped, hParts⟩
    exact keeps_of_parts hFields hInput hProper hShaped hParts

------------------------------------------------------------
-- Other Values
------------------------------------------------------------

/-
  Values that stand in for others: the same variables have
  values, none of which is null, and leaf types parse the same
  literals with them, and the same literals to null.
-/
structure StandsIn
    (schema : Schema)
    (others bindings : Entries Json) : Prop where
  bound : ∀ name,
    others.get? name = none ↔ bindings.get? name = none
  notNull : ∀ name value,
    others.get? name = some value → value.isNull = false
  leaf : ∀ type ∈ schema.types.types, ∀ input,
    (∀ name, input ≠ .variable name) →
    (type.parseLiteral input others).toOption.map Json.isNull =
      (type.parseLiteral input bindings).toOption.map Json.isNull

/- Where types have no hooks, any other values stand in. -/
theorem standsIn_of_withoutParseHooks
    (hHooks : schema.WithoutParseHooks)
    (hBound : ∀ name,
      others.get? name = none ↔ bindings.get? name = none)
    (hNotNull : ∀ name value,
      others.get? name = some value → value.isNull = false) :
    StandsIn schema others bindings where
  bound := hBound
  notNull := hNotNull
  leaf := by
    intro type hType input hInput
    cases type with
    | builtin scalar => rfl
    | defined type =>
        cases type with
        | scalar type =>
            simp only [NamedType.parseLiteral,
              (hHooks type hType).2]
            cases input with
            | «variable» name => exact absurd rfl (hInput name)
            | float value => cases value <;> rfl
            | _ => rfl
        | _ => rfl

/- What leaf types parse alike has the same form. -/
theorem Shaped.transfer
    (hLeaf : ∀ type ∈ schema.types.types,
      (type.parseLiteral place.input others).toOption.map
          Json.isNull =
        (type.parseLiteral place.input bindings).toOption.map
          Json.isNull)
    (h : Shaped schema bindings place) :
    Shaped schema others place := by
  cases h with
  | null hNullable => exact .null hNullable
  | list hNull => exact .list hNull
  | object hLookup hKnown hMissing =>
      exact .object hLookup hKnown hMissing
  | @leaf _ _ _ _ type input _ hNull hLookup hType hParsed hKept =>
      have hSame := hLeaf _ (TypeGraph.mem_of_lookup hLookup)
      dsimp only at hSame
      rw [hParsed] at hSame
      cases hOther : type.parseLiteral input others with
      | error cause =>
          rw [hOther] at hSame
          cases hSame
      | ok other =>
          rw [hOther] at hSame
          refine .leaf hNull hLookup hType hOther ?_
          rw [Option.some.inj hSame]
          exact hKept

/- A variable is accepted where its value is. -/
theorem keeps_of_bound
    {role : Role}
    {type : TypeRef}
    {name : String}
    {value : Json}
    (hBound : bindings.get? name = some value) :
    Keeps schema bindings (fuel + 1)
        ⟨role, type, .variable name⟩ ↔
      (role.isGiven = true → value.isNull = true →
        type.nullable = true) := by
  unfold Keeps
  simp only [literal, hBound]
  constructor
  · rintro ⟨_, ⟨⟩, hKept⟩
    exact hKept
  · intro hKept
    exact ⟨value, rfl, hKept⟩

/- A variable without a value is accepted where null is. -/
theorem keeps_of_unbound
    {role : Role}
    {type : TypeRef}
    {name : String}
    (hBound : bindings.get? name = none) :
    Keeps schema bindings (fuel + 1)
        ⟨role, type, .variable name⟩ ↔
      type.nullable = true := by
  unfold Keeps
  simp only [literal, hBound]
  split
  · next hNullable =>
      exact ⟨fun _ => hNullable,
        fun _ => ⟨.null, rfl, fun _ _ => hNullable⟩⟩
  · next hNullable =>
      refine ⟨?_, fun h => absurd h hNullable⟩
      rintro ⟨_, hResult, -⟩
      cases hResult

/-
  A variable is accepted exactly if it is with the value that
  stands in, and it is safe.
-/
theorem keeps_variable_iff
    (hOthers : StandsIn schema others bindings)
    {role : Role}
    {type : TypeRef}
    {name : String} :
    Keeps schema bindings (fuel + 1)
        ⟨role, type, .variable name⟩ ↔
      Keeps schema others (fuel + 1)
          ⟨role, type, .variable name⟩ ∧
        NullSafe bindings ⟨role, type, .variable name⟩ := by
  refine ⟨fun h => ⟨?_, h.nullSafe⟩, ?_⟩
  · cases hOther : others.get? name with
    | none =>
        have hBound := (hOthers.bound name).1 hOther
        exact (keeps_of_unbound hOther).2
          ((keeps_of_unbound hBound).1 h)
    | some value =>
        refine (keeps_of_bound hOther).2 fun _ hNull => ?_
        cases (hOthers.notNull name value hOther).symm.trans hNull
  · rintro ⟨h, hSafe⟩
    cases hBound : bindings.get? name with
    | none =>
        have hOther := (hOthers.bound name).2 hBound
        exact (keeps_of_unbound hBound).2
          ((keeps_of_unbound hOther).1 h)
    | some value =>
        refine (keeps_of_bound hBound).2 fun hGiven hNull => ?_
        refine hSafe hGiven name rfl ?_
        cases value with
        | null => exact hBound
        | _ => cases hNull

/-
  An input is accepted exactly if it is with values that stand
  in, none of which is null, and wherever coercion goes on to,
  null variables are safe.
-/
theorem keeps_iff_of_standsIn
    (hFields : FieldsDistinct schema)
    (hDefaults : schema.DefaultsSatisfy Literal.Proper)
    (hOthers : StandsIn schema others bindings)
    (hProper : place.input.Proper) :
    Keeps schema bindings fuel place ↔
      Keeps schema others fuel place ∧
        ∀ part, Reaches schema place part →
          NullSafe bindings part := by
  refine ⟨fun h => ⟨?_, fun _ => h.nullSafe_of_reaches⟩, ?_⟩
  · induction fuel generalizing place with
    | zero =>
        rcases h with ⟨_, hResult, -⟩
        cases hResult
    | succ fuel ih =>
        by_cases hVariable : ∃ name, place.input = .variable name
        · rcases place with ⟨role, type, input⟩
          rcases hVariable with ⟨name, hName⟩
          cases hName
          exact ((keeps_variable_iff hOthers).1 h).1
        · have hInput := not_exists.1 hVariable
          rw [keeps_iff hFields hInput hProper] at h ⊢
          refine ⟨h.1.transfer fun type hType =>
            hOthers.leaf type hType _ hInput, ?_⟩
          intro part hPart
          exact ih (hPart.proper hDefaults hProper)
            (h.2 part hPart)
  · rintro ⟨h, hSafe⟩
    induction fuel generalizing place with
    | zero =>
        rcases h with ⟨_, hResult, -⟩
        cases hResult
    | succ fuel ih =>
        by_cases hVariable : ∃ name, place.input = .variable name
        · have hSelf := hSafe place .refl
          rcases place with ⟨role, type, input⟩
          rcases hVariable with ⟨name, hName⟩
          cases hName
          exact (keeps_variable_iff hOthers).2 ⟨h, hSelf⟩
        · have hInput := not_exists.1 hVariable
          rw [keeps_iff hFields hInput hProper] at h ⊢
          refine ⟨h.1.transfer fun type hType =>
            (hOthers.leaf type hType _ hInput).symm, ?_⟩
          intro part hPart
          refine ih (hPart.proper hDefaults hProper)
            (h.2 part hPart) ?_
          intro next hNext
          exact hSafe next (.head hPart hNext)

------------------------------------------------------------
-- Arguments
------------------------------------------------------------

/-
  Where the coercion of an argument starts: at what is given, or
  at its default where nothing is given, or only a variable that
  has no value.
-/
inductive Starts
    (bindings : Entries Json)
    (given : Entries Literal)
    (name : String)
    (declared : InputValue) : Place → Prop where
  | given {input : Literal} :
      given.get? name = some input →
      (∀ var, input = .variable var →
        bindings.get? var ≠ none) →
      Starts bindings given name declared
        ⟨.argument, declared.type, input⟩
  | default {input : Literal} :
      (∀ other, given.get? name = some other →
        ∃ var, other = .variable var ∧
          bindings.get? var = none) →
      declared.default = some input →
      Starts bindings given name declared
        ⟨.default, declared.type, input⟩

variable {given : Entries Literal}
variable {name : String} {declared : InputValue}
variable {slot? : Option (String × Json)}

/- An argument of a selected field is accepted. -/
def Accepts
    (schema : Schema)
    (bindings : Entries Json)
    (fuel : Nat)
    (given : Entries Literal)
    (name : String)
    (declared : InputValue) : Prop :=
  ∃ slot?,
    (argument schema bindings fuel given name declared).run =
      some (.ok slot?)

/- An argument that is not given has its default, if any. -/
theorem absentArgument_eq_ok_iff :
    (absentArgument schema bindings fuel name declared).run =
        some (.ok slot?) ↔
      (∃ input result, declared.default = some input ∧
        (literal schema bindings fuel declared.type input).run =
            some (.ok result) ∧
          slot? = some (name, result)) ∨
      declared.default = none ∧ declared.type.nullable = true ∧
        slot? = none := by
  unfold absentArgument
  cases hDefault : declared.default with
  | some input =>
      simp only [run_bind_eq_ok_iff, relabel_eq_ok_iff]
      constructor
      · rintro ⟨result, hResult, ⟨⟩⟩
        exact .inl ⟨input, result, rfl, hResult, rfl⟩
      · rintro (⟨_, result, ⟨⟩, hResult, rfl⟩ | ⟨⟨⟩, -⟩)
        exact ⟨result, hResult, rfl⟩
  | none =>
      dsimp only
      split
      · next hNullable =>
          constructor
          · rintro ⟨⟩
            exact .inr ⟨rfl, hNullable, rfl⟩
          · rintro (⟨_, _, ⟨⟩, -⟩ | ⟨-, -, rfl⟩)
            rfl
      · next hNullable =>
          refine ⟨nofun, ?_⟩
          rintro (⟨_, _, ⟨⟩, -⟩ | ⟨-, h, -⟩)
          exact absurd h hNullable

/- Given by a variable without a value, it is not given. -/
theorem argument_of_unbound
    {var : String}
    (hGiven : given.get? name = some (.variable var))
    (hBound : bindings.get? var = none) :
    (argument schema bindings fuel given name declared).run =
        some (.ok slot?) ↔
      (absentArgument schema bindings fuel name declared).run =
        some (.ok slot?) := by
  unfold argument
  rw [hGiven]
  simp only [hBound]
  split
  · next hRequired =>
      refine ⟨nofun, ?_⟩
      rw [InputValue.isRequired, Bool.and_eq_true,
        Bool.not_eq_true', Option.isNone_iff_eq_none] at hRequired
      rw [absentArgument_eq_ok_iff]
      rintro (⟨_, _, hDefault, -⟩ | ⟨-, hNullable, -⟩)
      · cases hDefault.symm.trans hRequired.2
      · cases hNullable.symm.trans hRequired.1
  · exact Iff.rfl

/- A field accepts its arguments if it accepts each of them. -/
theorem accepts_arguments_iff {field : OutputField} :
    (∃ values,
        (arguments schema bindings fuel field given).run =
          some (.ok values)) ↔
      ∀ entry ∈ field.arguments,
        Accepts schema bindings fuel given entry.1 entry.2 := by
  unfold arguments
  simp only [run_bind_eq_ok_iff, run_mapM_eq_ok_iff]
  constructor
  · rintro ⟨values, slots, hSlots, -⟩ entry hEntry
    rcases exists_of_forall₂_of_mem hSlots.flip hEntry with
      ⟨slot?, -, hSlot⟩
    exact ⟨slot?, hSlot⟩
  · intro h
    rcases exists_forall₂ h with ⟨slots, hSlots⟩
    exact ⟨_, slots, hSlots, rfl⟩

/- An argument that is not given is accepted with its default. -/
theorem accepts_of_absent
    (hAbsent : ∀ other, given.get? name = some other →
      ∃ var, other = .variable var ∧ bindings.get? var = none) :
    Accepts schema bindings fuel given name declared ↔
      (∀ input, declared.default = some input →
        Keeps schema bindings fuel
          ⟨.default, declared.type, input⟩) ∧
      (declared.default = none →
        declared.type.nullable = true) := by
  have hArgument : ∀ slot?,
      (argument schema bindings fuel given name declared).run =
          some (.ok slot?) ↔
        (absentArgument schema bindings fuel name declared).run =
          some (.ok slot?) := by
    intro slot?
    cases hGiven : given.get? name with
    | none =>
        unfold argument
        rw [hGiven]
    | some other =>
        rcases hAbsent other hGiven with ⟨var, rfl, hBound⟩
        exact argument_of_unbound hGiven hBound
  unfold Accepts
  simp only [hArgument, absentArgument_eq_ok_iff]
  constructor
  · rintro ⟨slot?, ⟨input, result, hDefault, hResult, -⟩ |
      ⟨hDefault, hNullable, -⟩⟩
    · rw [hDefault]
      refine ⟨?_, nofun⟩
      rintro _ ⟨⟩
      exact ⟨result, hResult, nofun⟩
    · rw [hDefault]
      exact ⟨nofun, fun _ => hNullable⟩
  · rintro ⟨hKept, hNullable⟩
    cases hDefault : declared.default with
    | some input =>
        rcases hKept input hDefault with ⟨result, hResult, -⟩
        exact ⟨_, .inl ⟨input, result, rfl, hResult, rfl⟩⟩
    | none => exact ⟨_, .inr ⟨rfl, hNullable hDefault, rfl⟩⟩

/- A literal that is given is accepted where it is kept. -/
theorem accepts_of_literal
    {input : Literal}
    (hGiven : given.get? name = some input)
    (hInput : ∀ var, input ≠ .variable var) :
    Accepts schema bindings fuel given name declared ↔
      Keeps schema bindings fuel
        ⟨.argument, declared.type, input⟩ := by
  unfold Accepts Keeps
  simp only [argument_of_literal hGiven hInput]
  constructor
  · rintro ⟨_, result, hResult, hKept, -⟩
    exact ⟨result, hResult, fun _ => hKept⟩
  · rintro ⟨result, hResult, hKept⟩
    exact ⟨_, result, hResult, hKept rfl, rfl⟩

/- A variable that is given is accepted where its value is. -/
theorem accepts_of_variable
    {var : String}
    {value : Json}
    (hGiven : given.get? name = some (.variable var))
    (hBound : bindings.get? var = some value) :
    Accepts schema bindings fuel given name declared ↔
      (value.isNull = true → declared.type.nullable = true) := by
  unfold Accepts
  simp only [argument_of_variable hGiven hBound]
  exact ⟨fun ⟨_, h, _⟩ => h, fun h => ⟨_, h, rfl⟩⟩

/-
  A place that coercion meets for the arguments of a selected
  field: one that it starts at or goes on to.
-/
def Meets
    (schema : Schema)
    (bindings : Entries Json)
    (given : Entries Literal)
    (name : String)
    (declared : InputValue)
    (place : Place) : Prop :=
  ∃ start, Starts bindings given name declared start ∧
    Reaches schema start place

/- Null variables are safe wherever an accepted argument is. -/
theorem nullSafe_of_accepts
    (h : Accepts schema bindings fuel given name declared)
    (hMeets : Meets schema bindings given name declared place) :
    NullSafe bindings place := by
  rcases hMeets with ⟨start, hStart, hReaches⟩
  cases hStart with
  | @given input hGiven hBound =>
      by_cases hVariable : ∃ var, input = .variable var
      · rcases hVariable with ⟨var, rfl⟩
        rcases Relation.ReflTransGen.cases_head hReaches with
          rfl | ⟨part, hPart, -⟩
        · rintro - _ ⟨⟩ hNull
          exact (accepts_of_variable hGiven hNull).1 h rfl
        · exact absurd hPart not_part_of_variable
      · have hKept := (accepts_of_literal hGiven
          (not_exists.1 hVariable)).1 h
        exact hKept.nullSafe_of_reaches hReaches
  | default hAbsent hDefault =>
      have hKept := ((accepts_of_absent hAbsent).1 h).1 _ hDefault
      exact hKept.nullSafe_of_reaches hReaches

section

variable (hFields : FieldsDistinct schema)
variable (hDefaults : schema.DefaultsSatisfy Literal.Proper)
variable (hOthers : StandsIn schema others bindings)

include hFields hDefaults hOthers

/- An argument that is not given is accepted with either. -/
theorem accepts_absent_iff_of_standsIn
    (hDefault : ∀ input, declared.default = some input →
      input.Proper)
    (hAbsent : ∀ other, given.get? name = some other →
      ∃ var, other = .variable var ∧ bindings.get? var = none) :
    Accepts schema bindings fuel given name declared ↔
      Accepts schema others fuel given name declared ∧
        ∀ place, Meets schema bindings given name declared place →
          NullSafe bindings place := by
  have hAbsentOthers : ∀ other, given.get? name = some other →
      ∃ var, other = .variable var ∧ others.get? var = none := by
    intro other hOther
    rcases hAbsent other hOther with ⟨var, hVar, hBound⟩
    exact ⟨var, hVar, (hOthers.bound var).2 hBound⟩
  refine ⟨fun h => ⟨?_, fun _ => nullSafe_of_accepts h⟩, ?_⟩
  · rw [accepts_of_absent hAbsent] at h
    refine (accepts_of_absent hAbsentOthers).2 ⟨?_, h.2⟩
    intro input hInput
    exact ((keeps_iff_of_standsIn hFields hDefaults hOthers
      (hDefault input hInput)).1 (h.1 input hInput)).1
  · rintro ⟨h, hSafe⟩
    rw [accepts_of_absent hAbsentOthers] at h
    refine (accepts_of_absent hAbsent).2 ⟨?_, h.2⟩
    intro input hInput
    refine (keeps_iff_of_standsIn hFields hDefaults hOthers
      (hDefault input hInput)).2 ⟨h.1 input hInput, ?_⟩
    intro part hPart
    exact hSafe part ⟨_, .default hAbsent hInput, hPart⟩

/- A literal that is given is accepted as it is with them. -/
theorem accepts_literal_iff_of_standsIn
    {input : Literal}
    (hProper : input.Proper)
    (hGiven : given.get? name = some input)
    (hInput : ∀ var, input ≠ .variable var) :
    Accepts schema bindings fuel given name declared ↔
      Accepts schema others fuel given name declared ∧
        ∀ place, Meets schema bindings given name declared place →
          NullSafe bindings place := by
  have hStart : Starts bindings given name declared
      ⟨.argument, declared.type, input⟩ :=
    .given hGiven fun var hVar => absurd hVar (hInput var)
  refine ⟨fun h => ⟨?_, fun _ => nullSafe_of_accepts h⟩, ?_⟩
  · rw [accepts_of_literal hGiven hInput] at h ⊢
    exact ((keeps_iff_of_standsIn hFields hDefaults hOthers
      hProper).1 h).1
  · rintro ⟨h, hSafe⟩
    rw [accepts_of_literal hGiven hInput] at h ⊢
    exact (keeps_iff_of_standsIn hFields hDefaults hOthers
      hProper).2 ⟨h, fun part hPart =>
        hSafe part ⟨_, hStart, hPart⟩⟩

/-
  An argument is accepted exactly if it is with values that
  stand in, and null variables are safe wherever coercion is.
-/
theorem accepts_iff_of_standsIn
    (hGiven : ∀ input, given.get? name = some input →
      input.Proper)
    (hDefault : ∀ input, declared.default = some input →
      input.Proper) :
    Accepts schema bindings fuel given name declared ↔
      Accepts schema others fuel given name declared ∧
        ∀ place, Meets schema bindings given name declared place →
          NullSafe bindings place := by
  by_cases hAbsent : ∀ other, given.get? name = some other →
      ∃ var, other = .variable var ∧ bindings.get? var = none
  · exact accepts_absent_iff_of_standsIn hFields hDefaults
      hOthers hDefault hAbsent
  push Not at hAbsent
  rcases hAbsent with ⟨input, hFound, hBound⟩
  by_cases hVariable : ∃ var, input = .variable var
  · rcases hVariable with ⟨var, rfl⟩
    rcases Option.ne_none_iff_exists'.1 (hBound var rfl) with
      ⟨value, hValue⟩
    rcases Option.ne_none_iff_exists'.1
        (mt (hOthers.bound var).1 (hBound var rfl)) with
      ⟨other, hOther⟩
    have hNotNull := hOthers.notNull var other hOther
    refine ⟨fun h => ⟨?_, fun _ => nullSafe_of_accepts h⟩, ?_⟩
    · exact (accepts_of_variable hFound hOther).2 fun hNull =>
        absurd (hNotNull.symm.trans hNull) Bool.false_ne_true
    · rintro ⟨-, hSafe⟩
      refine (accepts_of_variable hFound hValue).2 ?_
      intro hNull
      refine hSafe _ ⟨_, .given hFound ?_, .refl⟩ rfl var rfl ?_
      · rintro _ ⟨⟩
        exact hBound var rfl
      · cases value with
        | null => exact hValue
        | _ => cases hNull
  · exact accepts_literal_iff_of_standsIn hFields hDefaults
      hOthers (hGiven input hFound) hFound
      (not_exists.1 hVariable)

end

/-
  Where the arguments of a field are accepted, no variable that
  is null is given where its type must not be null: neither for
  an argument nor for a field of an input object, at any depth.
  Nothing else refuses null: the arguments are accepted exactly
  if they are with other values for the same variables, none of
  them null, and null variables are safe wherever they are
  given, so that items of lists are never refused for null.
-/
theorem refuses_null_variables
    {field : OutputField}
    {given : Entries Literal} :
    (∀ bindings fuel values,
      (arguments schema bindings fuel field given).run =
          some (.ok values) →
        ∀ entry ∈ field.arguments, ∀ place,
          Meets schema bindings given entry.1 entry.2 place →
            NullSafe bindings place) ∧
    (FieldsDistinct schema →
      schema.DefaultsSatisfy Literal.Proper →
      (∀ entry ∈ given, entry.2.Proper) →
      (∀ entry ∈ field.arguments, ∀ input,
        entry.2.default = some input → input.Proper) →
      ∀ bindings others fuel, StandsIn schema others bindings →
        ((∃ values,
            (arguments schema bindings fuel field given).run =
              some (.ok values)) ↔
          (∃ values,
              (arguments schema others fuel field given).run =
                some (.ok values)) ∧
            ∀ entry ∈ field.arguments, ∀ place,
              Meets schema bindings given entry.1 entry.2
                  place →
                NullSafe bindings place)) := by
  refine ⟨?_, ?_⟩
  · intro bindings fuel values h entry hEntry place hMeets
    exact nullSafe_of_accepts
      (accepts_arguments_iff.1 ⟨values, h⟩ entry hEntry) hMeets
  · intro hFields hDefaults hGiven hDefault bindings others fuel
      hOthers
    rw [accepts_arguments_iff, accepts_arguments_iff,
      ← forall₂_and]
    refine forall₂_congr fun entry hEntry => ?_
    refine accepts_iff_of_standsIn hFields hDefaults hOthers ?_
      (hDefault entry hEntry)
    intro input hInput
    exact hGiven _ (Entries.mem_of_get? hInput)

end Coercion

------------------------------------------------------------
-- Windows
------------------------------------------------------------

namespace Paging

open Coercion

/- A field that takes a list of windows. -/
def windows : InputValue :=
  ⟨"windows", .ofList (.ofName "Window" false) true, none, none,
    .programmatic, []⟩

def counting : OutputField :=
  { OutputField.ofName "count" (.ofName "Int" true) with
    arguments := [("windows", windows)] }

/- A window, and the size of another one, by variables. -/
def givenWindows : Entries Literal :=
  [("windows",
    .list
      [.variable "window", .object [("size", .variable "size")]])]

def nullWindows : Entries Json :=
  [("window", .null), ("size", .null)]

def otherWindows : Entries Json :=
  [("window", .object []), ("size", .ofInt 1)]

theorem fieldsDistinct : FieldsDistinct schema := by
  intro type hType
  have hTypes : type = window ∨ type = page := by
    simpa [schema, TypeGraph.builtin] using hType
  rcases hTypes with rfl | rfl <;> decide

theorem defaults_proper :
    schema.DefaultsSatisfy Literal.Proper := by
  have hFields : schema.inputFields =
      [(defaulted "size" "Int" (.int 10)).2,
        (defaulted "window" "Window" (.object [])).2] := rfl
  intro field hField literal hDefault
  rw [hFields, List.mem_pair] at hField
  rcases hField with rfl | rfl <;> cases hDefault
  · exact .of_atom nofun nofun nofun
  · refine .object ?_ nofun
    rintro _ ⟨⟩
    exact List.nodup_nil

theorem givenWindows_proper :
    ∀ entry ∈ givenWindows, entry.2.Proper := by
  intro entry hEntry
  rw [List.mem_singleton.1 hEntry]
  refine .intro nofun ?_ nofun
  rintro _ ⟨⟩ item hItem
  rcases List.mem_pair.1 hItem with rfl | rfl
  · exact .of_atom nofun nofun nofun
  · refine .object ?_ ?_
    · rintro _ ⟨⟩
      decide
    · intro entry hEntry
      rw [List.mem_singleton.1 hEntry]
      exact .of_atom nofun nofun nofun

/- Null is accepted for the size, and for the window as well. -/
theorem windows_accepted :
    NullSafe nullWindows
        ⟨.field, .ofName "Int" true, .variable "size"⟩ ∧
      ∃ values,
        (arguments schema otherWindows 4 counting
          givenWindows).run = some (.ok values) := by
  have hAccepted :
      (arguments schema nullWindows 4 counting
          givenWindows).run =
        some (.ok [("windows",
          .array [.null, .object [("size", .null)]])]) := by
    with_unfolding_all rfl
  have hOthers : StandsIn schema otherWindows nullWindows := by
    refine standsIn_of_withoutParseHooks withoutParseHooks ?_ ?_
    · intro name
      simp only [otherWindows, nullWindows, Entries.get?]
      split
      · simp
      · split <;> simp
    · intro name value hValue
      simp only [otherWindows, Entries.get?] at hValue
      split at hValue
      · cases hValue
        rfl
      · split at hValue <;> cases hValue
        rfl
  have hRefuses := @refuses_null_variables schema counting
    givenWindows
  refine ⟨hRefuses.1 _ _ _ hAccepted _ List.mem_cons_self _ ?_,
    ((hRefuses.2 fieldsDistinct defaults_proper
      givenWindows_proper ?_ _ _ _ hOthers).1
        ⟨_, hAccepted⟩).1⟩
  · have hItem : Literal.object [("size", .variable "size")] ∈
        [Literal.variable "window",
          .object [("size", .variable "size")]] := by
      simp
    have hSize : Part schema
        ⟨.item, .ofName "Window" false,
          .object [("size", .variable "size")]⟩
        ⟨.field, .ofName "Int" true, .variable "size"⟩ := by
      refine @Part.field schema .item "Window" false
        .programmatic window _ "size" _ _ rfl rfl rfl
    refine ⟨_, .given rfl ?_, .head (.item hItem)
      (.head hSize .refl)⟩
    intro name hName
    cases hName
  · intro entry hEntry input hDefault
    rw [List.mem_singleton.1 hEntry] at hDefault
    cases hDefault

end Paging

------------------------------------------------------------
-- Sums
------------------------------------------------------------

namespace Sums

open Catalogue (position place)
open Coercion

/- A field that takes a list of numbers, none of them null. -/
def document : TypeSystemDocument :=
  [ .type
      ⟨position, none, "Query", [],
        .object []
          [⟨position, none, "sum",
            [⟨position, none, "of",
              .list (.nonNull (.named "Int")), none, []⟩],
            .named "String", []⟩]⟩]

/- The argument of the field. -/
def numbers : InputValue :=
  ⟨"of", .list (.named "Int" false place) true place, none, none,
    place, []⟩

def sum : OutputField :=
  { OutputField.ofName "sum" (.named "String" true place) with
    arguments := [("of", numbers)]
    location := place }

/- The object type of the document. -/
def query : ObjectType :=
  ⟨Catalogue.header "Query", ⟨[("sum", sum)], [], none⟩, none⟩

/- The only number is the value of a variable. -/
def given : Entries Literal :=
  [("of", .list [.variable "number"])]

/-
  A variable that is null stands where a number must not be
  null, and the field gets a list with null in it.
-/
theorem null_number_accepted :
    ∃ pass schema,
      Pass.empty.load none document = .ok pass ∧
        pass.build none = .ok schema ∧
        schema.lookup "Query" = some (.defined (.object query)) ∧
        query.field? "sum" = some sum ∧
        Meets schema [("number", .null)] given "of" numbers
          ⟨.item, .named "Int" false place,
            .variable "number"⟩ ∧
        (arguments schema [("number", .null)] 3 sum given).run =
          some (.ok [("of", .array [.null])]) := by
  have hSeen : (do
      let pass ← Pass.empty.load none document
      let schema ← pass.build none
      return (schema.lookup "Query",
        (arguments schema [("number", .null)] 3 sum
          given).run)) =
        .ok
          (some (.defined (.object query)),
            some (.ok [("of", .array [.null])])) := by
    with_unfolding_all rfl
  rcases Schema.exists_of_document hSeen with
    ⟨pass, schema, hLoad, hBuild, hPair⟩
  rcases Prod.mk.inj hPair with ⟨hQuery, hArguments⟩
  refine
    ⟨pass, schema, hLoad, hBuild, hQuery, rfl, ?_, hArguments⟩
  exact ⟨_, .given rfl nofun, .single (.item List.mem_cons_self)⟩

end Sums

end GraphQL
