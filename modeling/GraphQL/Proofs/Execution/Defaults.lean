import Mathlib.Data.Fintype.EquivFin
import Mathlib.Data.Fintype.Sets
import Mathlib.Order.WellFounded
import Mathlib.Logic.Relation
import GraphQL.Proofs.Execution.Settling
import GraphQL.Proofs.Schema.Additions
import GraphQL.Proofs.Schema.Built

/-
  Defaults that lead to further defaults.

  To coerce a literal is to take the defaults of the fields that
  it lacks, and the defaults of the fields that these lack.
  Where no default leads back to itself, every coercion ends.
  Where one does, a coercion need not end, and a schema is
  accepted all the same.

  Key definitions include:
    * `Schema.Takes`: a literal takes the default of a field
    * `Schema.Leads`, `Schema.DefaultsAcyclic`

  Main declarations:
    * `Coercion.literal_ends_of_takes`
    * `Schema.DefaultsAcyclic.wellFounded`
    * `Schema.coercion_ends`
-/

------------------------------------------------------------
-- Defaults
------------------------------------------------------------

namespace GraphQL

namespace Schema

/-
  A literal of a type takes the default of a field: an object
  in it lacks an entry for the field.
-/
inductive Takes (schema : Schema) :
    TypeRef → Literal → InputValue → Prop
  | item
      {inner : TypeRef}
      {nullable : Bool}
      {location : SourceLocation}
      {items : List Literal}
      {input : Literal}
      {field : InputValue}
      (hItem : input ∈ items)
      (h : Takes schema inner input field) :
      Takes schema (.list inner nullable location) (.list items)
        field
  | single
      {inner : TypeRef}
      {nullable : Bool}
      {location : SourceLocation}
      {input : Literal}
      {field : InputValue}
      (hSingle : ∀ items, input ≠ .list items)
      (h : Takes schema inner input field) :
      Takes schema (.list inner nullable location) input field
  | entry
      {name key : String}
      {nullable : Bool}
      {location : SourceLocation}
      {type : InputObjectType}
      {entries : List (String × Literal)}
      {input : Literal}
      {given field : InputValue}
      (hType : schema.lookup name =
        some (.defined (.inputObject type)))
      (hEntry : (key, input) ∈ entries)
      (hGiven : type.fields.get? key = some given)
      (h : Takes schema given.type input field) :
      Takes schema (.named name nullable location)
        (.object entries) field
  | absent
      {name key : String}
      {nullable : Bool}
      {location : SourceLocation}
      {type : InputObjectType}
      {entries : List (String × Literal)}
      {field : InputValue}
      (hType : schema.lookup name =
        some (.defined (.inputObject type)))
      (hField : (key, field) ∈ type.fields)
      (hAbsent : key ∉ entries.map Prod.fst) :
      Takes schema (.named name nullable location)
        (.object entries) field

/- The default of a field takes the default of another one. -/
def Leads (schema : Schema) (field next : InputValue) : Prop :=
  ∃ literal, field.default = some literal ∧
    schema.Takes field.type literal next

/- No default leads back to itself. -/
def DefaultsAcyclic (schema : Schema) : Prop :=
  ∀ field, ¬Relation.TransGen schema.Leads field field

variable {schema : Schema}

/- All fields of input objects. -/
def inputFields (schema : Schema) : List InputValue :=
  schema.types.types.flatMap fun type =>
    match type with
    | .defined (.inputObject type) => type.fields.map Prod.snd
    | _ => []

/- Defaults are those of fields of input objects. -/
theorem Takes.mem_inputFields
    {ref : TypeRef}
    {input : Literal}
    {field : InputValue}
    (h : schema.Takes ref input field) :
    field ∈ schema.inputFields := by
  induction h with
  | item _ _ ih => exact ih
  | single _ _ ih => exact ih
  | entry _ _ _ _ ih => exact ih
  | absent hType hField _ =>
      refine List.mem_flatMap.2
        ⟨_, TypeGraph.mem_of_lookup hType, ?_⟩
      exact List.mem_map.2 ⟨_, hField, rfl⟩

/-
  As a schema has finitely many fields, a chain of defaults
  that never comes back comes to an end.
-/
theorem DefaultsAcyclic.wellFounded
    (h : schema.DefaultsAcyclic) :
    WellFounded fun next field => schema.Leads field next := by
  let Field := {field // field ∈ schema.inputFields}
  let After (next field : Field) : Prop :=
    Relation.TransGen schema.Leads field.1 next.1
  have hTrans : IsTrans Field After :=
    ⟨fun _ _ _ hFirst hSecond => hSecond.trans hFirst⟩
  have hIrrefl : Std.Irrefl After :=
    ⟨fun field hLoop => h field.1 hLoop⟩
  have hFinite : Finite Field := by
    classical exact Finite.of_fintype Field
  have hWellFounded : WellFounded After :=
    Finite.wellFounded_of_trans_of_irrefl After
  have hFields : ∀ field : Field,
      Acc (fun next field => schema.Leads field next)
        field.1 := by
    intro field
    induction field using hWellFounded.induction with
    | h field ih =>
        constructor
        intro next hNext
        rcases hNext with ⟨literal, hDefault, hTakes⟩
        exact ih ⟨next, hTakes.mem_inputFields⟩
          (.single ⟨literal, hDefault, hTakes⟩)
  refine ⟨fun field => ⟨_, ?_⟩⟩
  rintro next ⟨literal, hDefault, hTakes⟩
  exact hFields ⟨next, hTakes.mem_inputFields⟩

end Schema

------------------------------------------------------------
-- Objects
------------------------------------------------------------

namespace Coercion

variable {α : Type} {schema : Schema} {type : InputObjectType}

/- The input type of a name is found or refused at once. -/
theorem inputType_ends (name : String) :
    Ends fun _ => inputType schema name := by
  unfold inputType
  split
  · split
    · exact .pure _
    · exact .throw _
  · exact .throw _

/- The input type that is found is that of the name. -/
theorem lookup_of_inputType
    {name : String}
    {found : NamedType}
    (h : Settles (fun _ => inputType schema name)
      (.ok found)) :
    schema.lookup name = some found := by
  rcases h with ⟨enough, hEnough⟩
  have hFound := hEnough enough (Nat.le_refl enough)
  unfold inputType at hFound
  split at hFound
  · next other hOther =>
      split at hFound
      · cases hFound
        exact hOther
      · cases hFound
  · cases hFound

theorem ofLeaf_ends (result : Except LeafError Json) :
    Ends fun _ => ofLeaf result := by
  cases result with
  | ok value => exact .pure value
  | error error => exact .throw (InputError.leaf error)

/- The entries of an object end if each of them does. -/
theorem provided_ends
    {coerce : Nat → TypeRef → α → Coercion InputError Json}
    {entries : Entries α}
    (h : ∀ entry ∈ entries, ∀ field,
      type.fields.get? entry.1 = some field →
        Ends fun fuel => coerce fuel field.type entry.2) :
    Ends fun fuel => provided (coerce fuel) type entries := by
  apply Ends.mapM
  intro entry hEntry
  unfold inputField
  split
  · next field hField =>
      simp only [pure_bind]
      refine (h entry hEntry field hField).bind ?_
      intro value _
      exact .pure (entry.1, value)
  · next hNone =>
      exact Ends.bind (.throw _) (fun _ h => by cases h.eq (.throw _))

/- The entries that are provided are those of the object. -/
theorem names_of_provided
    {coerce : Nat → TypeRef → α → Coercion InputError Json}
    {entries : Entries α}
    {values : Entries Json}
    (h : Settles
      (fun fuel => provided (coerce fuel) type entries)
      (.ok values)) :
    values.map Prod.fst = entries.map Prod.fst := by
  rcases h with ⟨enough, hEnough⟩
  have hEach := forall₂_of_mapM (hEnough enough (Nat.le_refl _))
  clear hEnough
  induction hEach with
  | nil => rfl
  | cons hEntry _ ih =>
      rcases run_bind_eq_ok_iff.1 hEntry with ⟨_, _, hEntry⟩
      rcases run_bind_eq_ok_iff.1 hEntry with ⟨_, _, hEntry⟩
      cases hEntry
      simp [ih]

/- An object is complete once its defaults are coerced. -/
theorem completeObject_ends
    {fallback : Nat → TypeRef → Literal →
      Coercion InputError Json}
    {values : Entries Json}
    (h : ∀ entry ∈ type.fields, ∀ literal,
      entry.1 ∉ values.map Prod.fst →
      entry.2.default = some literal →
        Ends fun fuel => fallback fuel entry.2.type literal) :
    Ends fun fuel =>
      completeObject (fallback fuel) type values := by
  unfold completeObject
  refine Ends.bind (Ends.mapM ?_) ?_
  · intro entry hEntry
    unfold completeField
    split
    · exact .ite (fun _ => .throw _) (fun _ => .pure _)
    · next hNone =>
        split
        · next literal hDefault =>
            refine Ends.bind
              (h entry hEntry literal ?_ hDefault) ?_
            · exact (Declared.get?_eq_none_iff values entry.1).1 hNone
            · intro value _
              exact .pure _
        · exact .ite (fun _ => .pure _) (fun _ => .throw _)
  · intro entries _
    exact .pure _

------------------------------------------------------------
-- Literals And Values
------------------------------------------------------------

/- A name has leaves, or is refused at once. -/
theorem parsed_ends
    (name : String)
    (parse : NamedType → Except LeafError Json) :
    Ends fun _ => inputType schema name >>= fun type =>
      match type with
      | .defined (.inputObject type) =>
          throw (InputError.notObject type.name)
      | type => ofLeaf (parse type) := by
  refine (inputType_ends name).bind ?_
  intro type _
  split
  · exact .throw _
  · exact ofLeaf_ends _

/- Only object literals are taken apart by named types. -/
theorem literal_named_ends
    (bindings : Entries Json)
    (name : String)
    (nullable : Bool)
    (location : SourceLocation)
    (input : Literal)
    (h : ∀ entries, input = .object entries → ∀ type,
      schema.lookup name = some (.defined (.inputObject type)) →
        Ends fun fuel =>
          provided (literal schema bindings fuel) type entries >>=
            completeObject (literal schema bindings fuel) type) :
    Ends fun fuel => literal schema bindings fuel
      (.named name nullable location) input := by
  apply Ends.of_succ
  cases input with
  | «variable» name =>
      simp only [literal]
      split
      · exact .pure _
      · exact .ite (fun _ => .pure _) (fun _ => .throw _)
  | null =>
      simp only [literal]
      exact .ite (fun _ => .pure _) (fun _ => .throw _)
  | object entries =>
      simp only [literal]
      refine (inputType_ends name).bind ?_
      intro type hType
      split
      · exact h entries rfl _ (lookup_of_inputType hType)
      · exact ofLeaf_ends _
  | int value => exact parsed_ends name _
  | float value => exact parsed_ends name _
  | string value => exact parsed_ends name _
  | boolean value => exact parsed_ends name _
  | enum value => exact parsed_ends name _
  | list items => exact parsed_ends name _

/- Whatever is no list is the only item of one. -/
theorem literal_list_ends
    (bindings : Entries Json)
    (inner : TypeRef)
    (nullable : Bool)
    (location : SourceLocation)
    (input : Literal)
    (hItems : ∀ items, input = .list items → ∀ item ∈ items,
      Ends fun fuel => literal schema bindings fuel inner item)
    (hSingle : (∀ items, input ≠ .list items) →
      Ends fun fuel =>
        literal schema bindings fuel inner input) :
    Ends fun fuel => literal schema bindings fuel
      (.list inner nullable location) input := by
  apply Ends.of_succ
  have hOnly (hOther : ∀ items, input ≠ .list items) :
      Ends fun fuel =>
        literal schema bindings fuel inner input >>=
          fun item => pure (Json.array [item]) :=
    (hSingle hOther).bind fun _ _ => .pure _
  cases input with
  | «variable» name =>
      simp only [literal]
      split
      · exact .pure _
      · exact .ite (fun _ => .pure _) (fun _ => .throw _)
  | null =>
      simp only [literal]
      exact .ite (fun _ => .pure _) (fun _ => .throw _)
  | list items =>
      exact (Ends.mapM (hItems items rfl)).bind fun _ _ => .pure _
  | int value => exact hOnly (by simp)
  | float value => exact hOnly (by simp)
  | string value => exact hOnly (by simp)
  | boolean value => exact hOnly (by simp)
  | enum value => exact hOnly (by simp)
  | object entries => exact hOnly (by simp)

/-
  A literal ends if the defaults that it takes do. The literals
  within it are smaller, and so is the type of an only item.
-/
theorem literal_ends_of_takes
    (bindings : Entries Json)
    (ref : TypeRef)
    (input : Literal)
    (h : ∀ field, schema.Takes ref input field →
      ∀ next, field.default = some next →
        Ends fun fuel =>
          literal schema bindings fuel field.type next) :
    Ends fun fuel => literal schema bindings fuel ref input := by
  cases ref with
  | list inner nullable location =>
      apply literal_list_ends
      · intro items hInput item hItem
        have hSmaller : sizeOf item < sizeOf input := by
          have hLess := List.sizeOf_lt_of_mem hItem
          simp only [hInput, Literal.list.sizeOf_spec]
          omega
        apply literal_ends_of_takes bindings inner item
        intro field hTakes
        exact h field (hInput ▸ .item hItem hTakes)
      · intro hSingle
        apply literal_ends_of_takes bindings inner input
        intro field hTakes
        exact h field (.single hSingle hTakes)
  | named name nullable location =>
      apply literal_named_ends
      intro entries hInput type hType
      refine (provided_ends ?_).bind ?_
      · intro entry hEntry given hGiven
        have hSmaller : sizeOf entry.2 < sizeOf input := by
          have hLess := List.sizeOf_lt_of_mem hEntry
          rcases entry with ⟨key, value⟩
          simp only [hInput, Literal.object.sizeOf_spec,
            Prod.mk.sizeOf_spec] at hLess ⊢
          omega
        apply literal_ends_of_takes bindings given.type entry.2
        intro field hTakes
        exact h field (hInput ▸ .entry hType hEntry hGiven hTakes)
      · intro values hValues
        apply completeObject_ends
        intro entry hEntry next hAbsent hDefault
        rw [names_of_provided hValues] at hAbsent
        refine h entry.2 ?_ next hDefault
        exact hInput ▸ .absent hType hEntry hAbsent
termination_by (sizeOf input, sizeOf ref)

/- Every literal ends where no default leads back to itself. -/
theorem literal_ends
    (hAcyclic : schema.DefaultsAcyclic)
    (bindings : Entries Json)
    (ref : TypeRef)
    (input : Literal) :
    Ends fun fuel => literal schema bindings fuel ref input := by
  have hDefaults : ∀ field next,
      InputValue.default field = some next →
        Ends fun fuel =>
          literal schema bindings fuel field.type next := by
    intro field
    induction field using hAcyclic.wellFounded.induction with
    | h field ih =>
        intro next hDefault
        apply literal_ends_of_takes
        intro other hTakes
        exact ih other ⟨next, hDefault, hTakes⟩
  apply literal_ends_of_takes
  intro field _
  exact hDefaults field

/- Only objects are taken apart by named types. -/
theorem value_named_ends
    (name : String)
    (nullable : Bool)
    (location : SourceLocation)
    (input : Json)
    (h : ∀ entries, input = .object entries → ∀ type,
      schema.lookup name = some (.defined (.inputObject type)) →
        Ends fun fuel =>
          provided (value schema fuel) type entries >>=
            completeObject (literal schema [] fuel) type) :
    Ends fun fuel => value schema fuel
      (.named name nullable location) input := by
  apply Ends.of_succ
  cases input with
  | null =>
      simp only [value]
      exact .ite (fun _ => .pure _) (fun _ => .throw _)
  | object entries =>
      simp only [value]
      refine (inputType_ends name).bind ?_
      intro type hType
      split
      · exact h entries rfl _ (lookup_of_inputType hType)
      · exact ofLeaf_ends _
  | bool value => exact parsed_ends name _
  | number value => exact parsed_ends name _
  | string value => exact parsed_ends name _
  | array items => exact parsed_ends name _

/- Whatever is no array is the only item of one. -/
theorem value_list_ends
    (inner : TypeRef)
    (nullable : Bool)
    (location : SourceLocation)
    (input : Json)
    (hItems : ∀ items, input = .array items → ∀ item ∈ items,
      Ends fun fuel => value schema fuel inner item)
    (hSingle : Ends fun fuel => value schema fuel inner input) :
    Ends fun fuel => value schema fuel
      (.list inner nullable location) input := by
  apply Ends.of_succ
  have hOnly : Ends fun fuel =>
      value schema fuel inner input >>=
        fun item => pure (Json.array [item]) :=
    hSingle.bind fun _ _ => .pure _
  cases input with
  | null =>
      simp only [value]
      exact .ite (fun _ => .pure _) (fun _ => .throw _)
  | array items =>
      exact (Ends.mapM (hItems items rfl)).bind fun _ _ => .pure _
  | bool value => exact hOnly
  | number value => exact hOnly
  | string value => exact hOnly
  | object entries => exact hOnly

/- Every value ends where all literals without variables do. -/
theorem value_ends_of_literals
    (hLiterals : ∀ ref input,
      Ends fun fuel => literal schema [] fuel ref input)
    (ref : TypeRef)
    (input : Json) :
    Ends fun fuel => value schema fuel ref input := by
  cases ref with
  | list inner nullable location =>
      apply value_list_ends
      · intro items hInput item hItem
        have hSmaller : sizeOf item < sizeOf input := by
          have hLess := List.sizeOf_lt_of_mem hItem
          simp only [hInput, Json.array.sizeOf_spec]
          omega
        exact value_ends_of_literals hLiterals inner item
      · exact value_ends_of_literals hLiterals inner input
  | named name nullable location =>
      apply value_named_ends
      intro entries hInput type _
      refine (provided_ends ?_).bind ?_
      · intro entry hEntry given _
        have hSmaller : sizeOf entry.2 < sizeOf input := by
          have hLess := List.sizeOf_lt_of_mem hEntry
          rcases entry with ⟨key, value⟩
          simp only [hInput, Json.object.sizeOf_spec,
            Prod.mk.sizeOf_spec] at hLess ⊢
          omega
        exact value_ends_of_literals hLiterals given.type entry.2
      · intro values _
        apply completeObject_ends
        intro entry _ next _ _
        exact hLiterals entry.2.type next
termination_by (sizeOf input, sizeOf ref)

------------------------------------------------------------
-- Arguments And Variables
------------------------------------------------------------

/- Arguments end where all literals do. -/
theorem arguments_end_of_literals
    {bindings : Entries Json}
    (hLiterals : ∀ ref input,
      Ends fun fuel => literal schema bindings fuel ref input)
    (field : OutputField)
    (given : Entries Literal) :
    Ends fun fuel =>
      arguments schema bindings fuel field given := by
  refine Ends.bind (Ends.mapM ?_) (fun _ _ => .pure _)
  intro entry _
  have hAccept (value : Json) : Ends fun _ =>
      acceptArgument entry.1 entry.2.type value :=
    .ite (fun _ => .throw _) (fun _ => .pure _)
  have hAbsent : Ends fun fuel => absentArgument schema bindings
      fuel entry.1 entry.2 := by
    unfold absentArgument
    split
    · next input _ =>
        refine ((hLiterals entry.2.type input).relabel _).bind ?_
        intro value _
        exact .pure _
    · exact .ite (fun _ => .pure _) (fun _ => .throw _)
  unfold argument
  split
  · split
    · exact hAccept _
    · exact .ite (fun _ => .throw _) (fun _ => hAbsent)
  · next input _ _ =>
      refine ((hLiterals entry.2.type input).relabel _).bind ?_
      intro value _
      exact hAccept value
  · exact hAbsent

/- A variable ends where literals and values do. -/
theorem requestVariable_ends
    (hLiterals : ∀ ref input,
      Ends fun fuel => literal schema [] fuel ref input)
    (inputs : Entries Json)
    (definition : VariableDefinition) :
    Ends fun fuel =>
      requestVariable schema fuel inputs definition := by
  unfold requestVariable
  refine .ite (fun _ => .throw _) (fun _ => ?_)
  split
  · split
    · next input _ =>
        refine ((hLiterals _ input).relabel _).bind ?_
        intro value _
        exact .pure _
    · exact .ite (fun _ => .pure _) (fun _ => .throw _)
  · next input _ =>
      refine .ite (fun _ => .throw _) (fun _ => ?_)
      have hValue := value_ends_of_literals hLiterals
        (variableType definition) input
      refine (hValue.relabel _).bind ?_
      intro value _
      exact .pure _

/- Variables end one after another, whatever their outcomes. -/
theorem exists_outcomes
    (hLiterals : ∀ ref input,
      Ends fun fuel => literal schema [] fuel ref input)
    (inputs : Entries Json)
    (definitions : List VariableDefinition) :
    ∃ enough outcomes, ∀ fuel, enough ≤ fuel →
      (definitions.mapM fun definition => do
        let outcome ←
          (requestVariable schema fuel inputs definition).run
        return (definition.position, outcome)) =
          some outcomes := by
  induction definitions with
  | nil => exact ⟨0, [], fun _ _ => rfl⟩
  | cons definition rest ih =>
      rcases ih with ⟨enough, outcomes, hRest⟩
      rcases requestVariable_ends hLiterals inputs definition with
        ⟨outcome, more, hFirst⟩
      refine ⟨max enough more,
        (definition.position, outcome) :: outcomes, ?_⟩
      intro fuel hFuel
      rw [List.mapM_cons, hFirst fuel (Nat.max_le.1 hFuel).2,
        hRest fuel (Nat.max_le.1 hFuel).1]
      rfl

/- The variables of an operation end as each of them does. -/
theorem bindings_end_of_literals
    (hLiterals : ∀ ref input,
      Ends fun fuel => literal schema [] fuel ref input)
    (inputs : Entries Json)
    (definitions : List VariableDefinition) :
    Ends fun fuel =>
      bindings schema fuel inputs definitions := by
  rcases exists_outcomes hLiterals inputs definitions with
    ⟨enough, outcomes, hOutcomes⟩
  unfold bindings
  refine Ends.bind ⟨.ok outcomes, enough, ?_⟩ ?_
  · intro fuel hFuel
    simp only [ExceptT.run_mk, hOutcomes fuel hFuel,
      Option.map_some]
  · intro outcomes _
    exact .ite (fun _ => .pure _) (fun _ => .throw _)

end Coercion

------------------------------------------------------------
-- Schemas
------------------------------------------------------------

/-
  Where no default leads back to itself, all coercions of all
  inputs end: of literals, of values, of the arguments of a
  field and of the variables of an operation.
-/
theorem Schema.coercion_ends
    {schema : Schema}
    (hAcyclic : schema.DefaultsAcyclic) :
    (∀ bindings ref input, Coercion.Ends fun fuel =>
      Coercion.literal schema bindings fuel ref input) ∧
    (∀ ref input, Coercion.Ends fun fuel =>
      Coercion.value schema fuel ref input) ∧
    (∀ bindings field given, Coercion.Ends fun fuel =>
      Coercion.arguments schema bindings fuel field given) ∧
    ∀ inputs definitions, Coercion.Ends fun fuel =>
      Coercion.bindings schema fuel inputs definitions := by
  have hLiterals := Coercion.literal_ends hAcyclic
  refine ⟨hLiterals, ?_, ?_, ?_⟩
  · exact Coercion.value_ends_of_literals (hLiterals [])
  · intro bindings
    exact Coercion.arguments_end_of_literals (hLiterals bindings)
  · exact Coercion.bindings_end_of_literals (hLiterals [])

------------------------------------------------------------
-- A Default That Ends
------------------------------------------------------------

namespace Paging

/- An input field with a default. -/
def defaulted (name type : String) (literal : Literal) :
    String × InputValue :=
  (name,
    ⟨name, .ofName type true, some literal, none, .programmatic,
      []⟩)

def window : InputObjectType :=
  ⟨.ofName "Window", [defaulted "size" "Int" (.int 10)]⟩

def page : InputObjectType :=
  ⟨.ofName "Page", [defaulted "window" "Window" (.object [])]⟩

/- Pages have windows, and windows have a size. -/
def schema : Schema where
  types :=
    { types := TypeGraph.builtin.types ++
        [.defined (.inputObject window),
          .defined (.inputObject page)]
      nodup_names := by decide }
  directives := []
  query := default
  mutation := none
  subscription := none

/- The size of a window takes no default. -/
theorem not_leads_size (next : InputValue) :
    ¬schema.Leads (defaulted "size" "Int" (.int 10)).2 next := by
  rintro ⟨_, ⟨⟩, hTakes⟩
  cases hTakes

/- The window of a page takes that of the size. -/
theorem eq_size_of_leads
    {next : InputValue}
    (h : schema.Leads
      (defaulted "window" "Window" (.object [])).2 next) :
    next = (defaulted "size" "Int" (.int 10)).2 := by
  rcases h with ⟨_, ⟨⟩, hTakes⟩
  cases hTakes with
  | entry _ hEntry _ _ => cases hEntry
  | @absent _ key _ _ type _ _ hType hField _ =>
      have hWindow : schema.lookup "Window" =
          some (.defined (.inputObject window)) := rfl
      rw [hWindow] at hType
      cases hType
      have hOnly := List.mem_singleton.1 hField
      exact congrArg Prod.snd hOnly

theorem defaultsAcyclic : schema.DefaultsAcyclic := by
  intro field hLoop
  rcases Relation.TransGen.head'_iff.1 hLoop with
    ⟨next, hFirst, hRest⟩
  have hField : field ∈ schema.inputFields := by
    rcases Relation.TransGen.tail'_iff.1 hLoop with
      ⟨_, _, _, _, hTakes⟩
    exact hTakes.mem_inputFields
  have hCases :
      field = (defaulted "size" "Int" (.int 10)).2 ∨
        field = (defaulted "window" "Window" (.object [])).2 := by
    simpa [Schema.inputFields, schema, TypeGraph.builtin, window,
      page] using hField
  rcases hCases with rfl | rfl
  · exact not_leads_size next hFirst
  · rw [eq_size_of_leads hFirst] at hRest
    rcases Relation.ReflTransGen.cases_head hRest with
      hSame | ⟨last, hLast, _⟩
    · exact absurd (congrArg InputValue.name hSame) (by decide)
    · exact not_leads_size last hLast

/- A page without entries is coerced. -/
theorem page_ends :
    schema.DefaultsAcyclic ∧ Coercion.Ends fun fuel =>
      Coercion.value schema fuel (.ofName "Page" false)
        (.object []) :=
  ⟨defaultsAcyclic,
    (Schema.coercion_ends defaultsAcyclic).2.1 _ _⟩

end Paging

------------------------------------------------------------
-- A Default Without End
------------------------------------------------------------

namespace Echo

open Catalogue (position place declared header)

/- An input object whose only default is one of itself. -/
def document : TypeSystemDocument :=
  [ .type
      ⟨position, none, "Query", [],
        .object []
          [{ declared "echo" (.named "String") with
              arguments :=
                [⟨position, none, "of", .named "Echo", none,
                  []⟩] }]⟩,
    .type
      ⟨position, none, "Echo", [],
        .inputObject
          [⟨position, none, "of", .named "Echo",
            some (.object []), []⟩]⟩]

/- The input object of the document. -/
def echo : InputObjectType :=
  ⟨header "Echo",
    [("of",
      ⟨"of", .named "Echo" true place, some (.object []), none,
        place, []⟩)]⟩

variable {schema : Schema}
variable (hLookup : schema.lookup "Echo" =
  some (.defined (.inputObject echo)))

include hLookup

/- The empty object takes itself, over and over again. -/
theorem literal_exhausted
    (bindings : Entries Json)
    (nullable : Bool)
    (location : SourceLocation)
    (fuel : Nat) :
    (Coercion.literal schema bindings fuel
      (.named "Echo" nullable location) (.object [])).run =
        none := by
  induction fuel generalizing nullable location with
  | zero => rfl
  | succ fuel ih =>
      have hNext : Coercion.literal schema bindings fuel
          (.named "Echo" true place) (.object []) =
            Coercion.exhausted := ih true place
      rw [Coercion.literal_object hLookup]
      simp only [Coercion.provided, List.mapM_nil, pure_bind,
        Coercion.completeObject, echo, List.mapM_cons,
        Coercion.completeField, Entries.get?_nil, hNext]
      rfl

theorem value_exhausted
    (nullable : Bool)
    (location : SourceLocation)
    (fuel : Nat) :
    (Coercion.value schema fuel
      (.named "Echo" nullable location) (.object [])).run =
        none := by
  cases fuel with
  | zero => rfl
  | succ fuel =>
      have hNext : Coercion.literal schema [] fuel
          (.named "Echo" true place) (.object []) =
            Coercion.exhausted :=
        literal_exhausted hLookup [] true place fuel
      rw [Coercion.value_object hLookup]
      simp only [Coercion.provided, List.mapM_nil, pure_bind,
        Coercion.completeObject, echo, List.mapM_cons,
        Coercion.completeField, Entries.get?_nil, hNext]
      rfl

omit hLookup in
/- The document is accepted, and no fuel suffices to coerce. -/
theorem accepted_without_end :
    ∃ pass schema, Pass.empty.load none document = .ok pass ∧
      pass.build none = .ok schema ∧
      ∀ fuel,
        (Coercion.literal schema [] fuel (.ofName "Echo" true)
          (.object [])).run = none ∧
        (Coercion.value schema fuel (.ofName "Echo" true)
          (.object [])).run = none := by
  let built : Except BuildError Schema :=
    Pass.empty.load none document >>= fun pass => pass.build none
  have hFound : built.map (fun schema => schema.lookup "Echo") =
      .ok (some (.defined (.inputObject echo))) := by
    with_unfolding_all rfl
  cases hSchema : built with
  | error error =>
      rw [hSchema] at hFound
      cases hFound
  | ok schema =>
      rw [hSchema] at hFound
      have hLookup := Except.ok.inj hFound
      rcases Results.bind_eq_ok_iff.1 hSchema with
        ⟨pass, hLoad, hBuild⟩
      refine ⟨pass, schema, hLoad, hBuild, ?_⟩
      intro fuel
      exact
        ⟨literal_exhausted hLookup [] true .programmatic fuel,
          value_exhausted hLookup true .programmatic fuel⟩

end Echo

end GraphQL
