import Mathlib.Data.List.Nodup
import GraphQL.Proofs.Execution.Groups
import GraphQL.Proofs.Execution.Answers

/-
  Conformance of responses to the types and selections of an
  operation, whatever resolvers give.

  Key definitions include:
    * `ExecutionContext.Conforms`: a value and its type
    * `ExecutionContext.ConformsObject`: an object, its type and
      its selections

  Main declarations:
    * `ExecutionContext.conforms_invariant`
    * `Request.data_conforms`
-/

------------------------------------------------------------
-- Conformance
------------------------------------------------------------

namespace GraphQL

namespace ExecutionContext

open Completion

mutual

/-
  What a resolved value may be completed to where a type is
  declared: null if the type admits it, else a value that
  follows the type layer by layer.
-/
inductive Conforms (self : ExecutionContext) :
    List PathSegment → FieldGroup → TypeRef → Json → Json →
      Prop where
  | null {path : List PathSegment} {group : FieldGroup}
      {type : TypeRef} {value : Json} :
      type.nullable = true →
      Conforms self path group type value .null
  | list {path : List PathSegment} {group : FieldGroup}
      {inner : TypeRef} {nullable : Bool}
      {location : SourceLocation} {items results : List Json} :
      results.length = items.length →
      (∀ (i : Nat) (item result : Json),
        items[i]? = some item → results[i]? = some result →
        Conforms self (path ++ [.index i]) group inner item
          result) →
      Conforms self path group (.list inner nullable location)
        (.array items) (.array results)
  | leaf {path : List PathSegment} {group : FieldGroup}
      {name : String} {nullable : Bool}
      {location : SourceLocation} {value result : Json}
      {type : NamedType} :
      self.schema.lookup name = some type →
      type.isLeaf = true →
      value.isNull = false →
      type.serialize value = .ok result →
      Conforms self path group (.named name nullable location)
        value result
  | object {path : List PathSegment} {group : FieldGroup}
      {name : String} {nullable : Bool}
      {location : SourceLocation} {value : Json}
      {type : ObjectType} {entries : List (String × Json)} :
      self.schema.lookup name = some (.defined (.object type)) →
      value.isNull = false →
      ConformsObject self path type value
        (group.nodes.flatMap FieldNode.selections) entries →
      Conforms self path group (.named name nullable location)
        value (.object entries)
  | abstract {path : List PathSegment} {group : FieldGroup}
      {name : String} {nullable : Bool}
      {location : SourceLocation} {value : Json}
      {type : NamedType} {object : ObjectType}
      {entries : List (String × Json)} :
      self.schema.lookup name = some type →
      type.isAbstract = true →
      object ∈ self.schema.possibleTypes type →
      value.isNull = false →
      ConformsObject self path object value
        (group.nodes.flatMap FieldNode.selections) entries →
      Conforms self path group (.named name nullable location)
        value (.object entries)

/-
  The entries of an object of a type: one for each collected
  group that the type answers, in the order of collection.
-/
inductive ConformsObject (self : ExecutionContext) :
    List PathSegment → ObjectType → Json → List Selection →
      List (String × Json) → Prop where
  | intro {path : List PathSegment} {type : ObjectType}
      {source : Json} {selections : List Selection}
      {entries : List (String × Json)} :
      entries.map Prod.fst =
        ((self.collect type selections).filter
          type.answers).map FieldGroup.key →
      (entries.map Prod.fst).Nodup →
      (∀ (group : FieldGroup) (value : Json),
        group ∈ self.collect type selections →
        (group.key, value) ∈ entries →
        ConformsEntry self path type source group value) →
      ConformsObject self path type source selections entries

/- The value of the entry for a group of fields. -/
inductive ConformsEntry (self : ExecutionContext) :
    List PathSegment → ObjectType → Json → FieldGroup → Json →
      Prop where
  | typename {path : List PathSegment} {type : ObjectType}
      {source : Json} {group : FieldGroup} :
      group.first.head.name = "__typename" →
      ConformsEntry self path type source group
        (.string type.name)
  | null {path : List PathSegment} {type : ObjectType}
      {source : Json} {group : FieldGroup}
      {field : OutputField} :
      group.first.head.name ≠ "__typename" →
      type.field? group.first.head.name = some field →
      field.type.nullable = true →
      ConformsEntry self path type source group .null
  | value {path : List PathSegment} {type : ObjectType}
      {source : Json} {group : FieldGroup}
      {field : OutputField} {resolved value : Json} :
      group.first.head.name ≠ "__typename" →
      type.field? group.first.head.name = some field →
      self.Yields (path ++ [.key group.key]) type source field
        group resolved →
      Conforms self (path ++ [.key group.key]) group field.type
        resolved value →
      ConformsEntry self path type source group value

end

------------------------------------------------------------
-- Possible Types
------------------------------------------------------------

/- A resolved type is a possible type. -/
theorem mem_possibleTypes_of_resolveWith
    {schema : Schema}
    {hooks : Hooks}
    {type : NamedType}
    {hook? : Option Hook}
    {value : Json}
    {info : ResolveInfo}
    {object : ObjectType}
    (h :
      (AbstractType.resolveWith schema hooks type hook? value
        info).1 = .ok object) :
    object ∈ schema.possibleTypes type := by
  have hScan :
      ∀ {object : ObjectType},
        (AbstractType.scan hooks type
          (schema.possibleTypes type) value info).1 =
            .ok object →
        object ∈ schema.possibleTypes type := by
    intro object hFound
    simp only [AbstractType.scan] at hFound
    split at hFound
    · next found hFind =>
        cases hFound
        exact List.mem_of_find?_eq_some hFind
    · exact absurd hFound (by simp)
  simp only [AbstractType.resolveWith] at h
  split at h
  · split at h
    · split at h
      · next found hFind =>
          cases h
          exact List.mem_of_find?_eq_some hFind
      · exact absurd h (by simp)
    · exact hScan h
  · split at h
    · next found hFind =>
        cases h
        rcases Option.bind_eq_some_iff.1 hFind with
          ⟨carried, -, hCarried⟩
        rcases Option.bind_eq_some_iff.1 hCarried with
          ⟨name, -, hName⟩
        exact List.mem_of_find?_eq_some hName
    · exact hScan h

/- The object type of a value of an abstract type is possible. -/
theorem mem_possibleTypes_of_resolve
    {schema : Schema}
    {hooks : Hooks}
    {type : NamedType}
    {value : Json}
    {info : ResolveInfo}
    {object : ObjectType}
    (h :
      (AbstractType.resolve schema hooks type value info).1 =
        .ok object) :
    object ∈ schema.possibleTypes type := by
  unfold AbstractType.resolve at h
  split at h
  · exact mem_possibleTypes_of_resolveWith h
  · exact mem_possibleTypes_of_resolveWith h
  · exact absurd h (by simp)

------------------------------------------------------------
-- Execution Conforms
------------------------------------------------------------

/- A value is completed to what conforms, if to anything. -/
def CompletesValue (context : ExecutionContext) : ValueProperty :=
  fun _ group type path value result? _ =>
    ∀ result, result? = some result →
      context.Conforms path group type value result

/- An object is completed to what conforms, if to anything. -/
def CompletesObject (context : ExecutionContext) :
    ObjectProperty :=
  fun path type source selections entries? _ =>
    ∀ entries, entries? = some entries →
      context.ConformsObject path type source selections entries

variable {context : ExecutionContext}
variable {path : List PathSegment} {group : FieldGroup}

/- Items are null or conform to the type of the items. -/
theorem conforms_of_itemOutcome
    {info : ResolveInfo}
    {type : TypeRef}
    {item : Json × Nat}
    {result : Json}
    {errors : List FieldError}
    (h : ItemOutcome context.CompletesValue info group type path
      item (some result) errors) :
    context.Conforms (path ++ [.index item.2]) group type item.1
      result := by
  generalize hSome : some result = result? at h
  rcases h with ⟨hConforms⟩
  rcases settled_eq_some hSome.symm with
    hValue | ⟨-, hNull, hNullable⟩
  · exact hConforms _ hValue
  · rw [hNull]
    exact .null hNullable

/- Lists are completed item by item. -/
theorem completesValue_list
    {info : ResolveInfo}
    {inner : TypeRef}
    {nullable : Bool}
    {location : SourceLocation}
    {items : List Json}
    {results? : Option (List Json)}
    {errors : List FieldError}
    (hItems :
      Traversed
        (ItemOutcome context.CompletesValue info group inner path)
        items.zipIdx results? errors) :
    context.CompletesValue info group
      (.list inner nullable location) path (.array items)
      (results?.map Json.array) errors := by
  intro result hResult
  rcases Option.map_eq_some_iff.1 hResult with
    ⟨results, hResults, rfl⟩
  have hPairs := hItems.forall₂ hResults
  refine .list (by simpa using hPairs.length_eq.symm) ?_
  intro i item result hItem hOutcome
  have hPair := List.forall₂_iff_get.1 hPairs
  rcases List.getElem?_eq_some_iff.1 hOutcome with
    ⟨hBound, rfl⟩
  rcases List.getElem?_eq_some_iff.1 hItem with
    ⟨hItemBound, rfl⟩
  have hAt := hPair.2 i (by simpa using hItemBound) hBound
  simp only [List.get_eq_getElem, List.getElem_zipIdx,
    Nat.zero_add] at hAt
  rcases hAt with ⟨itemErrors, hIntro⟩
  exact conforms_of_itemOutcome hIntro

/- The entry of a group conforms. -/
theorem conformsEntry_of_groupOutcome
    {type : ObjectType}
    {source value : Json}
    {errors : List FieldError}
    (h : GroupOutcome context.CompletesValue context path type
      source group (some (some (group.key, value))) errors) :
    context.ConformsEntry path type source group value := by
  generalize hSome : some (some (group.key, value)) = outcome?
    at h
  cases h with
  | typename hName =>
      cases hSome
      exact .typename hName
  | unknown hName hField => cases hSome
  | @field field value? errors hName hField hValue =>
      rcases Option.map_eq_some_iff.1 hSome.symm with
        ⟨result, hSettled, hResult⟩
      cases hResult
      rcases settled_eq_some hSettled with
        hValue? | ⟨-, rfl, hNullable⟩
      · subst hValue?
        cases hValue with
        | value hYields hConforms =>
            exact .value hName hField hYields (hConforms _ rfl)
      · exact .null hName hField hNullable

/- Objects are completed group by group. -/
theorem completesObject_groups
    {type : ObjectType}
    {source : Json}
    {selections : List Selection}
    {entries? : Option (List (Option (String × Json)))}
    {errors : List FieldError}
    (hGroups :
      Traversed
        (GroupOutcome context.CompletesValue context path type
          source)
        (context.collect type selections) entries? errors) :
    context.CompletesObject path type source selections
      (entries?.map fun entries => entries.filterMap id)
      errors := by
  intro entries hEntries
  rcases Option.map_eq_some_iff.1 hEntries with
    ⟨outcomes, hOutcomes, rfl⟩
  have hPairs := hGroups.forall₂ hOutcomes
  have hKeys := keys_of_groupOutcomes hPairs
  have hNodup :=
    Collector.nodup_keys_collect
      ⟨context.schema, context.document, context.bindings, type⟩
      selections
  refine .intro hKeys ?_ ?_
  · rw [hKeys]
    exact hNodup.sublist (List.filter_sublist.map _)
  · intro group value hGroup hEntry
    rcases exists_group_of_entry hPairs hEntry with
      ⟨found, hFound, errors, hOutcome⟩
    have hKey : found.key = group.key := by
      rcases entry_of_groupOutcome hOutcome with
        ⟨-, hNone⟩ | ⟨-, _, hSome⟩
      · exact absurd hNone (by simp)
      · exact (Prod.mk.inj (Option.some.inj hSome)).1.symm
    have hSame : found = group :=
      List.inj_on_of_nodup_map hNodup hFound hGroup hKey
    subst hSame
    exact conformsEntry_of_groupOutcome hOutcome

/- Values and objects are completed to what conforms. -/
theorem conforms_invariant (context : ExecutionContext) :
    context.Invariant context.CompletesValue
      context.CompletesObject where
  null hNullable := by
    rintro _ ⟨⟩
    exact .null hNullable
  fault _ := by
    rintro _ ⟨⟩
  leaf hValue hLookup hLeaf hSerialize := by
    rintro _ ⟨⟩
    exact .leaf hLookup hLeaf hValue hSerialize
  list hItems := completesValue_list hItems
  object {info group name nullable location path value type
      entries? errors} hValue hType hObject := by
    intro result hResult
    rcases Option.map_eq_some_iff.1 hResult with
      ⟨entries, hEntries, rfl⟩
    cases hType with
    | object hLookup hAccepts =>
        exact .object hLookup hValue (hObject _ hEntries)
    | abstract hLookup hAbstract hResolve =>
        exact .abstract hLookup hAbstract
          (mem_possibleTypes_of_resolve hResolve) hValue
          (hObject _ hEntries)
  groups hGroups := completesObject_groups hGroups

end ExecutionContext

------------------------------------------------------------
-- Responses
------------------------------------------------------------

/-
  Data of a response conforms to the root type and the
  selections of the operation, whatever the document selects
  and whatever hooks answer.
-/
theorem Request.data_conforms
    (request : Request)
    (schema : Schema)
    (hooks : Hooks)
    (fuel : Nat)
    (document : ExecutableDocument)
    (answer : Run)
    (entries : List (String × Json))
    (h : request.execute schema hooks fuel document = some answer)
    (hData : answer.response.data = some (.object entries)) :
    ∃ start : Request.Start request schema fuel document,
      (start.context hooks).ConformsObject [] start.root
        request.rootValue start.operation.selections entries := by
  rcases exists_start h hData with
    ⟨start, outcome, hOutcome, rfl⟩
  refine ⟨start, ?_⟩
  have hHolds :=
    (start.context hooks).conforms_invariant.holds
      (Completion.gives_of_eq_some hOutcome)
  apply hHolds
  cases hValue : outcome.value with
  | none => simp [run, hValue] at hData
  | some found =>
      have hSame : Json.object found = .object entries := by
        simpa [run, hValue] using hData
      cases hSame
      rfl

/- The answer about the catalogue conforms. -/
theorem Catalogue.entries_conform :
    request.execute schema hooks 6 requested = some answer ∧
      answer.response.data = some (.object entries) ∧
      ∃ start : Request.Start request schema 6 requested,
        (start.context hooks).ConformsObject [] start.root
          request.rootValue start.operation.selections entries := by
  have hAnswer :
      request.execute schema hooks 6 requested = some answer := by
    rfl
  have hData :
      answer.response.data = some (.object entries) := by
    rfl
  exact
    ⟨hAnswer, hData,
      Request.data_conforms request schema hooks 6 requested
        answer entries hAnswer hData⟩

end GraphQL
