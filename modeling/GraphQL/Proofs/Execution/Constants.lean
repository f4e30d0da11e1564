import GraphQL.Proofs.Execution.Defaults
import GraphQL.Proofs.Schema.Mentions

/-
  Literals that are constants.

  A literal without variables denotes one value, whatever the
  variables of an operation are bound to. If its floats are
  finite, this value is null for the null literal alone.

  Key definitions include:
    * `Literal.Each`: a property of a literal and its parts
    * `Literal.WithoutVariables`, `Literal.FiniteFloats`
    * `Literal.FiniteConstant`: both of these
    * `Literal.Proper`: no name is repeated in an object
    * `Schema.WithoutParseHooks`, `Schema.DefaultsSatisfy`

  Main declarations:
    * `Literal.WithoutVariables.toJson_eq`
    * `Literal.isNull_toJson`
    * `Literal.toJson_object`
-/

------------------------------------------------------------
-- Parts
------------------------------------------------------------

namespace GraphQL

namespace Literal

/- A literal and all literals in it have a property. -/
inductive Each (P : Literal → Prop) : Literal → Prop where
  | intro {literal : Literal} :
      P literal →
      (∀ items, literal = .list items →
        ∀ item ∈ items, Each P item) →
      (∀ entries, literal = .object entries →
        ∀ entry ∈ entries, Each P entry.2) →
      Each P literal

namespace Each

variable {P Q : Literal → Prop}
variable {literal : Literal}
variable {items : List Literal}
variable {entries : List (String × Literal)}

theorem self (h : Each P literal) : P literal := by
  cases h with
  | intro hSelf _ _ => exact hSelf

theorem item
    (h : Each P (.list items))
    {item : Literal}
    (hItem : item ∈ items) : Each P item := by
  cases h with
  | intro _ hItems _ => exact hItems items rfl item hItem

theorem entry
    (h : Each P (.object entries))
    {entry : String × Literal}
    (hEntry : entry ∈ entries) : Each P entry.2 := by
  cases h with
  | intro _ _ hEntries =>
      exact hEntries entries rfl entry hEntry

/- Literals other than lists and objects have no parts. -/
theorem of_atom
    (h : P literal)
    (hList : ∀ items, literal ≠ .list items)
    (hObject : ∀ entries, literal ≠ .object entries) :
    Each P literal :=
  .intro h
    (fun items hItems => absurd hItems (hList items))
    (fun entries hEntries => absurd hEntries (hObject entries))

theorem object
    (h : P (.object entries))
    (hEntries : ∀ entry ∈ entries, Each P entry.2) :
    Each P (.object entries) := by
  refine .intro h nofun ?_
  rintro _ ⟨⟩
  exact hEntries

end Each

/- No variable stands in a literal. -/
def WithoutVariables (literal : Literal) : Prop :=
  literal.Each fun part => ∀ name, part ≠ .variable name

/- The floats in a literal are finite. -/
def FiniteFloats (literal : Literal) : Prop :=
  literal.Each fun part =>
    ∀ negative, part ≠ .float (.infinite negative)

/- Constants whose floats are finite. -/
def FiniteConstant (literal : Literal) : Prop :=
  literal.WithoutVariables ∧ literal.FiniteFloats

/- No object in a literal has two entries of one name. -/
def Proper (literal : Literal) : Prop :=
  literal.Each fun part =>
    ∀ entries, part = .object entries →
      (Entries.names entries).Nodup

------------------------------------------------------------
-- Values
------------------------------------------------------------

variable {bindings : Entries Json}

theorem toJsonItems_eq_map (items : List Literal) :
    toJsonItems bindings items =
      items.map (toJson bindings) := by
  induction items with
  | nil => rfl
  | cons item rest ih => rw [toJsonItems, ih, List.map_cons]

theorem toJsonEntries_eq_mapValues (entries : Entries Literal) :
    toJsonEntries bindings entries =
      entries.mapValues (toJson bindings) := by
  induction entries with
  | nil => rfl
  | cons entry rest ih =>
      rw [toJsonEntries, ih]
      rfl

theorem toJson_list (items : List Literal) :
    toJson bindings (.list items) =
      .array (items.map (toJson bindings)) := by
  rw [toJson, toJsonItems_eq_map]

/- Distinct names keep their places. -/
theorem toJson_object
    {entries : Entries Literal}
    (hNames : entries.names.Nodup) :
    toJson bindings (.object entries) =
      .object (entries.mapValues (toJson bindings)) := by
  rw [toJson, toJsonEntries_eq_mapValues, Entries.ofList,
    Entries.insertAll_of_fresh, List.nil_append]
  have hSame : List.map Prod.fst
      (entries.mapValues (toJson bindings)) = entries.names := by
    simp [Entries.mapValues, Entries.names]
  rw [hSame]
  exact ⟨hNames, by simp [Entries.names]⟩

/- Without variables, the bindings have no part in a value. -/
theorem WithoutVariables.toJson_eq
    {literal : Literal}
    (h : literal.WithoutVariables)
    (bindings others : Entries Json) :
    literal.toJson bindings = literal.toJson others := by
  induction h with
  | @intro literal hSelf _ _ ihItems ihEntries =>
      cases literal with
      | «variable» name => exact absurd rfl (hSelf name)
      | float value => cases value <;> rfl
      | list items =>
          rw [toJson_list, toJson_list,
            List.map_congr_left (ihItems items rfl)]
      | object entries =>
          have hEntries :
              Entries.mapValues (toJson bindings) entries =
                Entries.mapValues (toJson others) entries := by
            apply List.map_congr_left
            intro entry hEntry
            rw [ihEntries entries rfl entry hEntry]
          simp only [toJson, toJsonEntries_eq_mapValues]
          rw [hEntries]
      | _ => rfl

/- Only the null literal denotes null. -/
theorem isNull_toJson
    {literal : Literal}
    (hVariables : literal.WithoutVariables)
    (hFloats : literal.FiniteFloats) :
    (literal.toJson bindings).isNull = literal.isNull := by
  cases literal with
  | «variable» name => exact absurd rfl (hVariables.self name)
  | float value =>
      cases value with
      | finite value => rfl
      | infinite negative =>
          exact absurd rfl (hFloats.self negative)
  | _ => rfl

end Literal

------------------------------------------------------------
-- Schemas
------------------------------------------------------------

namespace Schema

/- No scalar type parses its values by a hook. -/
def WithoutParseHooks (schema : Schema) : Prop :=
  ∀ type, .defined (.scalar type) ∈ schema.types.types →
    type.parseValue = none ∧ type.parseLiteral = none

/- The defaults of input fields have a property. -/
def DefaultsSatisfy
    (schema : Schema)
    (P : Literal → Prop) : Prop :=
  ∀ field ∈ schema.inputFields, ∀ literal,
    field.default = some literal → P literal

variable {schema : Schema}

/- The fields of input objects are input fields. -/
theorem mem_inputFields
    {name : String}
    {type : InputObjectType}
    {entry : String × InputValue}
    (hLookup : schema.lookup name =
      some (.defined (.inputObject type)))
    (hEntry : entry ∈ type.fields) :
    entry.2 ∈ schema.inputFields := by
  refine List.mem_flatMap.2
    ⟨_, TypeGraph.mem_of_lookup hLookup, ?_⟩
  exact List.mem_map.2 ⟨entry, hEntry, rfl⟩

end Schema

namespace Paging

theorem withoutParseHooks : schema.WithoutParseHooks := by
  intro type hType
  simp [schema, TypeGraph.builtin] at hType

/- The defaults are a number and an object without entries. -/
theorem defaults_finiteConstant :
    schema.DefaultsSatisfy Literal.FiniteConstant := by
  have hFields : schema.inputFields =
      [(defaulted "size" "Int" (.int 10)).2,
        (defaulted "window" "Window" (.object [])).2] := rfl
  intro field hField literal hDefault
  rw [hFields, List.mem_pair] at hField
  rcases hField with rfl | rfl <;> cases hDefault
  · exact ⟨.of_atom nofun nofun nofun, .of_atom nofun nofun nofun⟩
  · exact ⟨.object nofun nofun, .object nofun nofun⟩

end Paging

end GraphQL
