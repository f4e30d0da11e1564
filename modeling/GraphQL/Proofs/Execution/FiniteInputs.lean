import GraphQL.Proofs.Execution.Places
import GraphQL.Proofs.Execution.Settling
import GraphQL.Proofs.Json.Alike
import GraphQL.Proofs.Schema.InputCycles

/-
  Input objects that have values.

  A schema reports a cycle of input objects exactly if some
  input object has no value: a value that names require of one
  another would have no end, and where no cycle is found, one
  value is built from those of the required fields.

  Key definitions include:
    * `TypeGraph.PlainInputs`
    * `Schema.HasValue`

  Main declarations:
    * `Schema.not_hasValue_of_endless`
    * `Schema.accepts_of_searched`
    * `Schema.inputCycle_iff_lacksValue`
-/

------------------------------------------------------------
-- Values
------------------------------------------------------------

namespace GraphQL

open InputObjectType (required? required?_eq_some_iff)

/-
  Input objects have one field of each name, and their fields
  have input types; enums have values, none of which is null
  inside; scalars take every value as it is.
-/
structure TypeGraph.PlainInputs (graph : TypeGraph) : Prop where
  nodup_fields : ∀ type,
    .defined (.inputObject type) ∈ graph.types →
    (type.fields.map Prod.fst).Nodup
  inputFields : ∀ type,
    .defined (.inputObject type) ∈ graph.types →
    ∀ entry ∈ type.fields,
      graph.HasInput entry.2.type.innermost
  enums : ∀ type, .defined (.enum type) ∈ graph.types →
    type.values ≠ [] ∧
      ∀ value ∈ type.values, value.value.isNull = false
  scalars : ∀ type, .defined (.scalar type) ∈ graph.types →
    type.parseValue = none

namespace Schema

/- Some value, once its coercion ends, is one of a type. -/
def HasValue (schema : Schema) (type : TypeRef) : Prop :=
  ∃ (input result : Json), input.Proper ∧
    Coercion.Settles
      (fun fuel => Coercion.value schema fuel type input)
      (.ok result)

end Schema

------------------------------------------------------------
-- Required Fields
------------------------------------------------------------

namespace Coercion

open Results (exists_of_forall₂_of_mem)

variable {α : Type}
variable {schema : Schema}
variable {type : InputObjectType}
variable {coerce : TypeRef → α → Coercion InputError Json}
variable {fallback : TypeRef → Literal → Coercion InputError Json}

/- An entry that is provided was coerced to its field. -/
theorem exists_of_provided
    {entries : Entries α}
    {values : Entries Json}
    (h : (provided coerce type entries).run =
      some (.ok values))
    {key : String}
    {value : Json}
    (hValue : values.get? key = some value) :
    ∃ input field, type.fields.get? key = some field ∧
      (coerce field.type input).run = some (.ok value) := by
  have hMem := Entries.mem_of_get? hValue
  rcases exists_of_forall₂_of_mem (forall₂_of_mapM h) hMem with
    ⟨⟨_, input⟩, _, hEntry⟩
  rcases run_bind_eq_ok_iff.1 hEntry with ⟨field, hField, hEntry⟩
  rcases run_bind_eq_ok_iff.1 hEntry with ⟨_, hFound, hEntry⟩
  cases hEntry
  refine ⟨input, field, ?_, hFound⟩
  unfold inputField at hField
  split at hField
  · next other hOther =>
      cases hField
      exact hOther
  · cases hField

/- A required field is provided, or its default is taken. -/
theorem exists_of_completeObject
    {values : Entries Json}
    {result : Json}
    (h : (completeObject fallback type values).run =
      some (.ok result))
    {entry : String × InputValue}
    (hEntry : entry ∈ type.fields)
    (hRequired : entry.2.type.nullable = false) :
    (∃ value, values.get? entry.1 = some value) ∨
      ∃ literal value,
        (fallback entry.2.type literal).run =
          some (.ok value) := by
  rcases run_bind_eq_ok_iff.1 h with ⟨entries, hEntries, -⟩
  have hFields := forall₂_of_mapM hEntries
  rcases exists_of_forall₂_of_mem hFields.flip hEntry with
    ⟨_, _, hField⟩
  simp only [completeField] at hField
  split at hField
  · next value hValue => exact .inl ⟨value, hValue⟩
  · split at hField
    · next literal _ =>
        rcases run_bind_eq_ok_iff.1 hField with
          ⟨value, hValue, -⟩
        exact .inr ⟨literal, value, hValue⟩
    · rw [if_neg (by simp [hRequired])] at hField
      cases hField

/- A value of an object has one of each required field. -/
theorem exists_of_object
    {entries : Entries α}
    {result : Json}
    (h : (provided coerce type entries >>=
      completeObject fallback type).run = some (.ok result))
    (hFields : (type.fields.map Prod.fst).Nodup)
    {entry : String × InputValue}
    (hEntry : entry ∈ type.fields)
    (hRequired : entry.2.type.nullable = false) :
    (∃ input value,
      (coerce entry.2.type input).run = some (.ok value)) ∨
      ∃ literal value,
        (fallback entry.2.type literal).run =
          some (.ok value) := by
  rcases run_bind_eq_ok_iff.1 h with ⟨values, hValues, hObject⟩
  rcases exists_of_completeObject hObject hEntry hRequired with
    ⟨value, hValue⟩ | hDefault
  · rcases exists_of_provided hValues hValue with
      ⟨input, field, hField, hInput⟩
    have hSame : type.fields.get? entry.1 = some entry.2 :=
      Entries.get?_eq_some_of_mem hFields hEntry
    rw [hSame] at hField
    cases hField
    exact .inl ⟨input, value, hInput⟩
  · exact .inr hDefault

------------------------------------------------------------
-- Endless Names
------------------------------------------------------------

theorem throw_ne_ok (cause : InputError) (result : Json) :
    (throw cause : Coercion InputError Json).run ≠
      some (.ok result) := by
  intro h
  cases h

variable {names : List String}
variable (hPlain : schema.types.PlainInputs)
variable (hEndless : schema.types.Endless names)

include hPlain hEndless

/- No literal without variables is a value of such a name. -/
theorem literal_ne_ok_of_endless
    (fuel : Nat)
    {name : String}
    (hName : name ∈ names)
    (location : SourceLocation)
    (input : Literal)
    (result : Json) :
    (literal schema [] fuel (.named name false location)
      input).run ≠ some (.ok result) := by
  induction fuel generalizing name location input result with
  | zero => intro h; cases h
  | succ fuel ih =>
      rcases hEndless name hName with
        ⟨target, hTarget, type, hType, entry, hEntry, hRequired⟩
      rcases required?_eq_some_iff.1 hRequired with ⟨place, hRef⟩
      have hFields := hPlain.nodup_fields type
        (TypeGraph.mem_of_lookup hType)
      cases input with
      | object entries =>
          rw [literal_object hType]
          intro h
          rcases exists_of_object h hFields hEntry
              (by rw [hRef]; rfl) with
            ⟨input, value, hValue⟩ | ⟨input, value, hValue⟩
          · exact ih hTarget place input value (hRef ▸ hValue)
          · exact ih hTarget place input value (hRef ▸ hValue)
      | «variable» name => intro h; cases h
      | null => intro h; cases h
      | _ =>
          simpa only [literal, inputType_of_lookup hType,
            pure_bind] using throw_ne_ok _ result

/- Nothing is a value of such a name. -/
theorem value_ne_ok_of_endless
    (fuel : Nat)
    {name : String}
    (hName : name ∈ names)
    (location : SourceLocation)
    (input result : Json) :
    (value schema fuel (.named name false location)
      input).run ≠ some (.ok result) := by
  induction fuel generalizing name location input result with
  | zero => intro h; cases h
  | succ fuel ih =>
      rcases hEndless name hName with
        ⟨target, hTarget, type, hType, entry, hEntry, hRequired⟩
      rcases required?_eq_some_iff.1 hRequired with ⟨place, hRef⟩
      have hFields := hPlain.nodup_fields type
        (TypeGraph.mem_of_lookup hType)
      cases input with
      | object entries =>
          rw [value_object hType]
          intro h
          rcases exists_of_object h hFields hEntry
              (by rw [hRef]; rfl) with
            ⟨input, value, hValue⟩ | ⟨input, value, hValue⟩
          · exact ih hTarget place input value (hRef ▸ hValue)
          · exact literal_ne_ok_of_endless hPlain hEndless fuel
              hTarget place input value (hRef ▸ hValue)
      | null => intro h; cases h
      | _ =>
          simpa only [value, inputType_of_lookup hType,
            pure_bind] using throw_ne_ok _ result

end Coercion

namespace Schema

variable {schema : Schema}

/- What a name without end requires has no value either. -/
theorem not_hasValue_of_endless
    {names : List String}
    (hPlain : schema.types.PlainInputs)
    (hEndless : schema.types.Endless names)
    {name : String}
    (hName : name ∈ names)
    (location : SourceLocation) :
    ¬schema.HasValue (.named name false location) := by
  rintro ⟨input, result, -, enough, hEnough⟩
  exact Coercion.value_ne_ok_of_endless hPlain hEndless enough
    hName location input result (hEnough enough (Nat.le_refl enough))

------------------------------------------------------------
-- Finite Values
------------------------------------------------------------

/- A value that is one of a type, and is kept by its fields. -/
def Accepts (schema : Schema) (type : TypeRef) : Prop :=
  ∃ (input result : Json), input.Proper ∧
    (result.isNull = true → type.nullable = true) ∧
    Coercion.Settles
      (fun fuel => Coercion.value schema fuel type input)
      (.ok result)

theorem Accepts.hasValue
    {type : TypeRef}
    (h : schema.Accepts type) : schema.HasValue type := by
  rcases h with ⟨input, result, hProper, -, hSettles⟩
  exact ⟨input, result, hProper, hSettles⟩

/- Null is a value of every type that admits it. -/
theorem accepts_of_nullable
    {type : TypeRef}
    (h : type.nullable = true) : schema.Accepts type := by
  refine ⟨.null, .null, .null, fun _ => h, ?_⟩
  apply Coercion.Settles.of_succ
  simpa only [Coercion.value, if_pos h] using
    Coercion.Settles.pure Json.null

/- The empty list is a value of every list. -/
theorem accepts_list
    (inner : TypeRef)
    (nullable : Bool)
    (location : SourceLocation) :
    schema.Accepts (.list inner nullable location) := by
  refine ⟨.array [], .array [], .array (by simp), ?_, ?_⟩
  · intro h
    cases h
  · apply Coercion.Settles.of_succ
    exact Coercion.Settles.pure (Json.array [])

/- Every leaf type parses some value. -/
theorem exists_parseValue
    (hPlain : schema.types.PlainInputs)
    {type : NamedType}
    (hType : type ∈ schema.types.types)
    (hLeaf : type.isLeaf = true) :
    ∃ input result : Json, input.Proper ∧
      input.isNull = false ∧ result.isNull = false ∧
      type.parseValue input = .ok result := by
  cases type with
  | builtin scalar =>
      cases scalar with
      | boolean => exact ⟨.bool true, _, .bool true, rfl, rfl, rfl⟩
      | float => exact ⟨.ofInt 0, _, .number _, rfl, rfl, rfl⟩
      | id => exact ⟨.string "", _, .string "", rfl, rfl, rfl⟩
      | int =>
          exact ⟨.ofInt 0, .ofInt 0, .number _, rfl, rfl,
            by with_unfolding_all rfl⟩
      | string => exact ⟨.string "", _, .string "", rfl, rfl, rfl⟩
  | defined type =>
      cases type with
      | enum type =>
          rcases hPlain.enums type hType with ⟨hNonempty, hNull⟩
          rcases List.exists_mem_of_ne_nil _ hNonempty with
            ⟨value, hValue⟩
          have hSome : (type.value? value.name).isSome := by
            rw [EnumType.value?, List.find?_isSome]
            exact ⟨value, hValue, by simp⟩
          rcases Option.isSome_iff_exists.1 hSome with
            ⟨found, hFound⟩
          refine ⟨.string value.name, found.value, .string _, rfl,
            hNull found (List.mem_of_find?_eq_some hFound), ?_⟩
          simp [NamedType.parseValue, EnumType.parseValue,
            EnumType.parseName, hFound]
      | scalar type =>
          refine ⟨.bool true, .bool true, .bool true, rfl, rfl, ?_⟩
          simp [NamedType.parseValue, hPlain.scalars type hType]
      | object _ => cases hLeaf
      | interface _ => cases hLeaf
      | union _ => cases hLeaf
      | inputObject _ => cases hLeaf

/- Every leaf type has a value. -/
theorem accepts_leaf
    (hPlain : schema.types.PlainInputs)
    {name : String}
    {type : NamedType}
    (hLookup : schema.lookup name = some type)
    (hLeaf : type.isLeaf = true)
    (nullable : Bool)
    (location : SourceLocation) :
    schema.Accepts (.named name nullable location) := by
  rcases exists_parseValue hPlain
      (TypeGraph.mem_of_lookup hLookup) hLeaf with
    ⟨input, result, hProper, hInput, hResult, hParsed⟩
  refine ⟨input, result, hProper, ?_, ?_⟩
  · intro h
    rw [hResult] at h
    cases h
  · apply Coercion.Settles.of_succ
    simp only [Coercion.value_leaf hLookup hLeaf nullable location
      _ hInput, hParsed]
    exact Coercion.Settles.pure result

/- An input object has a value if each of its fields has one. -/
theorem accepts_inputObject
    (hPlain : schema.types.PlainInputs)
    {name : String}
    {type : InputObjectType}
    (hLookup : schema.types.HasInputObject name type)
    (hFields : ∀ entry ∈ type.fields,
      schema.Accepts entry.2.type)
    (nullable : Bool)
    (location : SourceLocation) :
    schema.Accepts (.named name nullable location) := by
  have hNames := hPlain.nodup_fields type
    (TypeGraph.mem_of_lookup hLookup)
  choose! input result hProper hKept hSettles using hFields
  let inputs : Entries Json := type.fields.map fun entry =>
    (entry.1, input entry)
  let results : Entries Json := type.fields.map fun entry =>
    (entry.1, result entry)
  have hGet : ∀ entry ∈ type.fields,
      results.get? entry.1 = some (result entry) := by
    intro entry hEntry
    apply Entries.get?_eq_some_of_mem
    · simpa [results, Function.comp_def] using hNames
    · exact List.mem_map.2 ⟨entry, hEntry, rfl⟩
  have hProvided : Coercion.Settles
      (fun fuel => Coercion.provided
        (Coercion.value schema fuel) type inputs)
      (.ok results) := by
    apply Coercion.Settles.mapM
    rw [List.forall₂_map_left_iff, List.forall₂_map_right_iff,
      List.forall₂_same]
    intro entry hEntry
    have hField : Coercion.inputField type entry.1 =
        pure entry.2 := by
      unfold Coercion.inputField
      rw [Entries.get?_eq_some_of_mem hNames hEntry]
    simp only [hField, pure_bind]
    exact (hSettles entry hEntry).bind (.pure _)
  have hCompleted : Coercion.Settles
      (fun fuel => Coercion.completeObject
        (Coercion.literal schema [] fuel) type results)
      (.ok (.object results)) := by
    have hEntries : Coercion.Settles
        (fun fuel => type.fields.mapM fun entry =>
          Coercion.completeField
            (Coercion.literal schema [] fuel) type results
            entry.1 entry.2)
        (.ok (results.map some)) := by
      apply Coercion.Settles.mapM
      rw [List.map_map, List.forall₂_map_right_iff,
        List.forall₂_same]
      intro entry hEntry
      have hNull : ((result entry).isNull &&
          !entry.2.type.nullable) = false := by
        simpa using hKept entry hEntry
      simp only [Coercion.completeField, hGet entry hEntry, hNull]
      exact .pure _
    have hAll : (results.map some).filterMap id = results := by
      simp [List.filterMap_map]
    simp only [Coercion.completeObject]
    refine hEntries.bind ?_
    rw [hAll]
    exact .pure (Json.object results)
  refine ⟨.object inputs, .object results, ?_, ?_, ?_⟩
  · refine .object ?_ ?_
    · simpa [inputs, Function.comp_def] using hNames
    · intro member hMember
      rcases List.mem_map.1 hMember with ⟨entry, hEntry, rfl⟩
      exact hProper entry hEntry
  · intro h
    cases h
  · apply Coercion.Settles.of_succ
    simp only [Coercion.value_object hLookup]
    exact hProvided.bind hCompleted

/-
  Where a search finds no cycle, each field has a value: null,
  the empty list, a leaf, or the value of an input object that
  the search goes on with.
-/
theorem accepts_of_searched
    (hPlain : schema.types.PlainInputs)
    {depth : Nat}
    {visiting : List String}
    {name : String}
    {type : InputObjectType}
    (hLookup : schema.types.HasInputObject name type)
    (hSearched : schema.types.Searched depth visiting name type)
    (nullable : Bool)
    (location : SourceLocation) :
    schema.Accepts (.named name nullable location) := by
  induction depth generalizing visiting name type nullable
      location with
  | zero => exact absurd hSearched TypeGraph.Searched.not_zero
  | succ depth ih =>
      apply accepts_inputObject hPlain hLookup
      rintro ⟨key, field⟩ hEntry
      rcases hPlain.inputFields type
          (TypeGraph.mem_of_lookup hLookup) _ hEntry with
        ⟨target, hTarget, hInput⟩
      cases hType : field.type with
      | list inner nullable location =>
          exact accepts_list inner nullable location
      | named other nullable location =>
          cases nullable with
          | true => exact accepts_of_nullable rfl
          | false =>
              simp only [hType, TypeRef.innermost] at hTarget
              have hLeaf (h : target.isLeaf = true) :
                  schema.Accepts (.named other false location) :=
                accepts_leaf hPlain hTarget h false location
              cases target with
              | builtin scalar => exact hLeaf rfl
              | defined target =>
                  cases target with
                  | enum _ => exact hLeaf rfl
                  | scalar _ => exact hLeaf rfl
                  | object _ => cases hInput
                  | interface _ => cases hInput
                  | union _ => cases hInput
                  | inputObject target =>
                      have hRequired :
                          required? field.type = some other := by
                        rw [hType]
                        rfl
                      exact ih hTarget
                        (hSearched.next hEntry hRequired hTarget)
                        false location

------------------------------------------------------------
-- Reports
------------------------------------------------------------

/- Some input object of the schema has no value. -/
def LacksValue (schema : Schema) : Prop :=
  ∃ type, .defined (.inputObject type) ∈ schema.types.types ∧
    ¬schema.HasValue (.ofName type.name false)

/- The cycles of a graph are those of types without values. -/
theorem lacksValue_of_inputCycle
    (hPlain : schema.types.PlainInputs)
    {path : List String}
    (h : .inputCycle path ∈ schema.types.errors) :
    schema.LacksValue := by
  rcases TypeGraph.inputCycle_mem_errors_iff.1 h with
    ⟨type, hType, hCycle⟩
  rcases TypeGraph.endless_of_inputCycle hType hCycle with
    ⟨names, hName, hEndless⟩
  exact ⟨type, hType,
    not_hasValue_of_endless hPlain hEndless hName .programmatic⟩

theorem exists_inputCycle_of_lacksValue
    (hPlain : schema.types.PlainInputs)
    (h : schema.LacksValue) :
    ∃ path, .inputCycle path ∈ schema.types.errors := by
  rcases h with ⟨type, hType, hNoValue⟩
  have hCycles : type.cycleErrors schema.types ≠ [] := by
    intro hNone
    have hSearched :=
      TypeGraph.searched_of_cycleErrors_eq_nil hType hNone
    have hAccepts := accepts_of_searched hPlain
      (TypeGraph.lookup_of_mem hType) hSearched false .programmatic
    exact hNoValue hAccepts.hasValue
  rcases List.exists_mem_of_ne_nil _ hCycles with ⟨error, hError⟩
  rcases TypeGraph.exists_inputCycle_of_mem_cyclesFrom hError with
    ⟨path, rfl⟩
  exact ⟨path,
    TypeGraph.inputCycle_mem_errors_iff.2 ⟨type, hType, hError⟩⟩

/-
  A cycle of input objects is reported exactly if some input
  object has no value: by the rules for the types of a graph,
  and, unless some type is flawed by itself, by the validation
  as a whole.
-/
theorem inputCycle_iff_lacksValue
    (hPlain : schema.types.PlainInputs) :
    ((∃ path, .inputCycle path ∈ schema.types.errors) ↔
      schema.LacksValue) ∧
    (schema.types.flawed? = none →
      ((∃ errors path,
        schema.types.validate = .error (.typeErrors errors) ∧
          .inputCycle path ∈ errors) ↔
        schema.LacksValue)) := by
  have hErrors :
      (∃ path, .inputCycle path ∈ schema.types.errors) ↔
        schema.LacksValue := by
    constructor
    · rintro ⟨path, hPath⟩
      exact lacksValue_of_inputCycle hPlain hPath
    · exact exists_inputCycle_of_lacksValue hPlain
  refine ⟨hErrors, ?_⟩
  intro hSound
  rw [← hErrors]
  unfold TypeGraph.validate
  rw [hSound]
  constructor
  · rintro ⟨errors, path, hValid, hPath⟩
    dsimp only at hValid
    split at hValid
    · cases hValid
    · cases hValid
      exact ⟨path, hPath⟩
  · rintro ⟨path, hPath⟩
    refine ⟨schema.types.errors, path, if_neg ?_, hPath⟩
    intro hEmpty
    rw [List.isEmpty_iff.1 hEmpty] at hPath
    cases hPath

end Schema

------------------------------------------------------------
-- Two Input Objects
------------------------------------------------------------

namespace Tennis

/- A field that requires a value of an input object. -/
def required (name target : String) : String × InputValue :=
  (name,
    ⟨name, .ofName target false, none, none, .programmatic, []⟩)

def ping : InputObjectType :=
  ⟨.ofName "Ping", [required "back" "Pong"]⟩

def pong : InputObjectType :=
  ⟨.ofName "Pong", [required "forth" "Ping"]⟩

/- Two input objects that require each other. -/
def types : TypeGraph where
  types := TypeGraph.builtin.types ++
    [.defined (.inputObject ping), .defined (.inputObject pong)]
  nodup_names := by decide

def schema : Schema :=
  ⟨types, [], default, none, none⟩

theorem eq_of_mem
    {type : TypeDef}
    (h : .defined type ∈ types.types) :
    type = .inputObject ping ∨ type = .inputObject pong := by
  simpa [types, TypeGraph.builtin] using h

theorem plainInputs : types.PlainInputs where
  nodup_fields type hType := by
    rcases eq_of_mem hType with h | h <;>
    · cases h
      decide
  inputFields type hType entry hEntry := by
    rcases eq_of_mem hType with h | h <;>
    · cases h
      rw [List.mem_singleton.1 hEntry]
      exact ⟨_, rfl, rfl⟩
  enums type hType := by
    rcases eq_of_mem hType with h | h <;> cases h
  scalars type hType := by
    rcases eq_of_mem hType with h | h <;> cases h

/- A cycle is reported, and one of the two has no value. -/
theorem lacks_value :
    types.PlainInputs ∧ types.flawed? = none ∧
      .inputCycle ["Ping.back", "Pong.forth", "Ping"] ∈
        types.errors ∧
      schema.LacksValue := by
  have hErrors : .inputCycle ["Ping.back", "Pong.forth", "Ping"] ∈
      types.errors := by
    have hCycle : ping.cycleErrors types =
        [.inputCycle ["Ping.back", "Pong.forth", "Ping"]] := by
      with_unfolding_all rfl
    rw [TypeGraph.inputCycle_mem_errors_iff]
    refine ⟨ping, by simp [types], ?_⟩
    rw [hCycle]
    exact List.mem_singleton.2 rfl
  have hSound : types.flawed? = none := by
    with_unfolding_all rfl
  have hLacks : schema.LacksValue :=
    (Schema.inputCycle_iff_lacksValue plainInputs).1.1
      ⟨_, hErrors⟩
  exact ⟨plainInputs, hSound, hErrors, hLacks⟩

end Tennis

end GraphQL
