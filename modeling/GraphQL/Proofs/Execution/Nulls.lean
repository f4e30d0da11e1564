import GraphQL.Proofs.Execution.Groups
import GraphQL.Proofs.Execution.Places

/-
  Errors and nulls of a response correspond.

  Every error has a place of its own at or below a null, and
  every null is due to an error, a resolver, a list or a leaf.

  Key definitions include:
    * `ExecutionContext.Accounts`

  Main declarations:
    * `ExecutionContext.accounts_invariant`
    * `Request.errors_account_for_nulls`
-/

------------------------------------------------------------
-- Accounts
------------------------------------------------------------

namespace GraphQL

namespace ExecutionContext

open Completion

variable {context : ExecutionContext} {root : ObjectType}
variable {selected : List Selection}
variable {path : List PathSegment} {errors : List FieldError}

/-
  What stands at a place, if anything does, is in agreement
  with the errors of its completion.
-/
structure Accounts
    (context : ExecutionContext)
    (root : ObjectType)
    (selected : List Selection)
    (path : List PathSegment)
    (value? : Option Json)
    (errors : List FieldError) : Prop where
  below : ∀ error ∈ errors, path <+: error.path
  nodup : (errors.map FieldError.path).Nodup
  failed : value? = none → errors ≠ []
  covered : ∀ value, value? = some value →
    ∀ error ∈ errors, ∃ rest,
      path ++ rest <+: error.path ∧
        value.at? rest = some .null
  explained : ∀ value, value? = some value →
    ∀ rest, value.at? rest = some .null →
      (∃ error ∈ errors, path ++ rest <+: error.path) ∨
        context.NullAt root selected (path ++ rest)

namespace Accounts

/- An error that is passed on. -/
theorem fault
    (fault : FieldFault)
    (position : Position) :
    context.Accounts root selected path none
      [⟨fault, path, position⟩] where
  below := by simp
  nodup := by simp
  failed _ := by simp
  covered := by simp
  explained := by simp

/- A value without errors whose nulls come from elsewhere. -/
theorem ofValue
    {value : Json}
    (h : ∀ rest, value.at? rest = some .null →
      context.NullAt root selected (path ++ rest)) :
    context.Accounts root selected path (some value) [] where
  below := by simp
  nodup := by simp
  failed := by simp
  covered := by simp
  explained := by
    rintro _ ⟨⟩ rest hRest
    exact .inr (h rest hRest)

/- Null takes the place of a value that has errors only. -/
theorem nulled
    (h : context.Accounts root selected path none errors) :
    context.Accounts root selected path (some .null) errors where
  below := h.below
  nodup := h.nodup
  failed := by simp
  covered := by
    rintro _ ⟨⟩ error hError
    exact ⟨[], by simpa using h.below error hError, by simp⟩
  explained := by
    rintro _ ⟨⟩ rest hRest
    have hHere := Json.eq_nil_of_at?_null hRest
    subst hHere
    rcases List.exists_mem_of_ne_nil errors (h.failed rfl) with
      ⟨error, hError⟩
    exact .inl
      ⟨error, hError, by simpa using h.below error hError⟩

/- A place that admits null ends an error. -/
theorem settled
    {type : TypeRef}
    {value? : Option Json}
    (h : context.Accounts root selected path value? errors) :
    context.Accounts root selected path
      (Completion.settled type value?) errors := by
  cases value? with
  | some value => exact h
  | none =>
      cases hType : type.nullable with
      | false => simpa [Completion.settled, hType] using h
      | true => simpa [Completion.settled, hType] using h.nulled

/-
  A list or an object, given that each of its members, and each
  member with an error, is in agreement with errors of its own.
-/
theorem container
    {value : Json}
    (hValue : value ≠ .null)
    (hBelow : ∀ error ∈ errors, path <+: error.path)
    (hNodup : (errors.map FieldError.path).Nodup)
    (hMember : ∀ segment member,
      value.at? [segment] = some member →
      ∃ own, own ⊆ errors ∧
        context.Accounts root selected (path ++ [segment])
          (some member) own)
    (hError : ∀ error ∈ errors, ∃ segment member own,
      value.at? [segment] = some member ∧ error ∈ own ∧
        context.Accounts root selected (path ++ [segment])
          (some member) own) :
    context.Accounts root selected path (some value) errors where
  below := hBelow
  nodup := hNodup
  failed := by simp
  covered := by
    rintro _ ⟨⟩ error hMem
    rcases hError error hMem with
      ⟨segment, member, own, hAt, hOwn, hAccounts⟩
    rcases hAccounts.covered member rfl error hOwn with
      ⟨rest, hPrefix, hNull⟩
    refine ⟨segment :: rest, by simpa using hPrefix, ?_⟩
    rw [Json.at?_cons, hAt]
    exact hNull
  explained := by
    rintro _ ⟨⟩ rest hNull
    cases rest with
    | nil => exact absurd (by simpa using hNull) hValue
    | cons segment rest =>
        rw [Json.at?_cons] at hNull
        rcases Option.bind_eq_some_iff.1 hNull with
          ⟨member, hAt, hRest⟩
        rcases hMember segment member hAt with
          ⟨own, hOwn, hAccounts⟩
        rcases hAccounts.explained member rfl rest hRest with
          ⟨error, hError, hPrefix⟩ | hElsewhere
        · exact .inl
            ⟨error, hOwn hError, by simpa using hPrefix⟩
        · exact .inr (by simpa using hElsewhere)

/- What is given up has errors of its members. -/
theorem givenUp
    (hBelow : ∀ error ∈ errors, path <+: error.path)
    (hNodup : (errors.map FieldError.path).Nodup)
    (hErrors : errors ≠ []) :
    context.Accounts root selected path none errors where
  below := hBelow
  nodup := hNodup
  failed _ := hErrors
  covered := by simp
  explained := by simp

end Accounts

------------------------------------------------------------
-- Lists
------------------------------------------------------------

/- An array is in agreement if its items are. -/
theorem accounts_of_items
    {items : List Json}
    {results? : Option (List Json)}
    (h :
      Traversed
        (fun (item : Json × Nat) value? own =>
          context.Accounts root selected
            (path ++ [.index item.2]) value? own)
        items.zipIdx results? errors) :
    context.Accounts root selected path
      (results?.map Json.array) errors := by
  have hBelow : ∀ error ∈ errors, path <+: error.path := by
    intro error hError
    rcases h.exists_of_mem hError with
      ⟨item, -, value?, own, hOwn, hMem⟩
    exact (List.prefix_append _ _).trans (hOwn.below error hMem)
  have hSegments : (items.zipIdx.map fun item =>
      PathSegment.index item.2).Nodup := by
    have hIndices : (items.zipIdx.map Prod.snd).Nodup := by
      rw [List.zipIdx_map_snd]
      exact List.nodup_range'
    have hMap := hIndices.map (f := PathSegment.index)
      (fun a b hSame => PathSegment.index.inj hSame)
    rwa [List.map_map] at hMap
  have hNodup := h.nodup_paths hSegments
    (fun item _ value? own hOwn => hOwn.below)
    (fun item _ value? own hOwn => hOwn.nodup)
  cases hResults : results? with
  | none =>
      exact .givenUp hBelow hNodup
        (h.errors_ne_nil (fun _ _ hOwn => hOwn.failed rfl)
          hResults)
  | some results =>
      rcases h.exists_parts hResults with
        ⟨parts, hParts, rfl, rfl⟩
      have hAt : ∀ (i : Nat) (part : Json × List FieldError),
          parts[i]? = some part →
          context.Accounts root selected (path ++ [.index i])
            (some part.1) part.2 := by
        intro i part hPart
        rcases List.getElem?_eq_some_iff.1 hPart with
          ⟨hBound, rfl⟩
        have hItem := hParts.get
          (hParts.length_eq ▸ hBound) hBound
        simpa using hItem
      refine .container (by simp) hBelow hNodup ?_ ?_
      · intro segment member hMember
        cases segment with
        | key name => cases hMember
        | index i =>
            have hResult : (parts.map Prod.fst)[i]? =
                some member := by
              simpa using hMember
            rw [List.getElem?_map] at hResult
            rcases Option.map_eq_some_iff.1 hResult with
              ⟨part, hPart, rfl⟩
            refine ⟨part.2, ?_, hAt i part hPart⟩
            intro error hError
            exact List.mem_flatMap.2
              ⟨part, List.mem_of_getElem? hPart, hError⟩
      · intro error hError
        rcases List.mem_flatMap.1 hError with
          ⟨part, hMem, hOwn⟩
        rcases List.getElem?_of_mem hMem with ⟨i, hPart⟩
        refine ⟨.index i, part.1, part.2, ?_, hOwn,
          hAt i part hPart⟩
        simp [hPart]

------------------------------------------------------------
-- Objects
------------------------------------------------------------

/- A group gives nothing, or what is in agreement at its key. -/
def GroupAccounts
    (context : ExecutionContext)
    (root : ObjectType)
    (selected : List Selection)
    (path : List PathSegment)
    (group : FieldGroup)
    (slot? : Option (Option (String × Json)))
    (own : List FieldError) : Prop :=
  (slot? = some none ∧ own = []) ∨
    ∃ value?,
      slot? = value?.map (fun value => some (group.key, value)) ∧
        context.Accounts root selected
          (path ++ [.key group.key]) value? own

namespace GroupAccounts

variable {group : FieldGroup}
variable {slot? : Option (Option (String × Json))}
variable {own : List FieldError}

theorem below
    (h : GroupAccounts context root selected path group slot? own) :
    ∀ error ∈ own, path ++ [.key group.key] <+: error.path := by
  rcases h with ⟨-, rfl⟩ | ⟨value?, -, hAccounts⟩
  · simp
  · exact hAccounts.below

theorem nodup
    (h : GroupAccounts context root selected path group slot? own) :
    (own.map FieldError.path).Nodup := by
  rcases h with ⟨-, rfl⟩ | ⟨value?, -, hAccounts⟩
  · simp
  · exact hAccounts.nodup

theorem failed
    (h : GroupAccounts context root selected path group none own) :
    own ≠ [] := by
  rcases h with ⟨hNone, -⟩ | ⟨value?, hNone, hAccounts⟩
  · cases hNone
  · exact hAccounts.failed (Option.map_eq_none_iff.1 hNone.symm)

/- An entry stands at the key of its group. -/
theorem of_entry
    {key : String}
    {value : Json}
    (h :
      GroupAccounts context root selected path group
        (some (some (key, value))) own) :
    key = group.key ∧
      context.Accounts root selected
        (path ++ [.key group.key]) (some value) own := by
  rcases h with ⟨hNone, -⟩ | ⟨value?, hSome, hAccounts⟩
  · cases hNone
  · rcases Option.map_eq_some_iff.1 hSome.symm with
      ⟨found, rfl, hFound⟩
    cases hFound
    exact ⟨rfl, hAccounts⟩

/- A group with an error has an entry. -/
theorem exists_entry
    {slot : Option (String × Json)}
    (h :
      GroupAccounts context root selected path group (some slot)
        own)
    (hOwn : own ≠ []) :
    ∃ value, slot = some (group.key, value) := by
  rcases h with ⟨-, hNil⟩ | ⟨value?, hSome, -⟩
  · exact absurd hNil hOwn
  · rcases Option.map_eq_some_iff.1 hSome.symm with
      ⟨value, -, hSlot⟩
    exact ⟨value, hSlot.symm⟩

end GroupAccounts

/- The keys of the entries are among those of the groups. -/
theorem keys_sublist_of_groups
    {groups : List FieldGroup}
    {parts : List (Option (String × Json) × List FieldError)}
    (h :
      List.Forall₂
        (fun group part =>
          GroupAccounts context root selected path group
            (some part.1) part.2)
        groups parts) :
    List.Sublist
      (((parts.map Prod.fst).filterMap id).map Prod.fst)
      (groups.map FieldGroup.key) := by
  induction h with
  | nil => exact .slnil
  | @cons group part groups parts hFirst hRest ih =>
      rcases part with ⟨slot, own⟩
      cases slot with
      | none => exact .cons _ (by simpa using ih)
      | some entry =>
          rcases entry with ⟨key, value⟩
          have hKey : key = group.key := hFirst.of_entry.1
          rw [hKey]
          exact .cons_cons _ (by simpa using ih)

/- An object is in agreement if its groups are. -/
theorem accounts_of_groups
    {groups : List FieldGroup}
    {slots? : Option (List (Option (String × Json)))}
    (hKeys : (groups.map FieldGroup.key).Nodup)
    (h :
      Traversed (GroupAccounts context root selected path)
        groups slots? errors) :
    context.Accounts root selected path
      ((slots?.map fun slots => slots.filterMap id).map
        Json.object)
      errors := by
  have hBelow : ∀ error ∈ errors, path <+: error.path := by
    intro error hError
    rcases h.exists_of_mem hError with
      ⟨group, -, slot?, own, hOwn, hMem⟩
    exact (List.prefix_append _ _).trans (hOwn.below error hMem)
  have hSegments : (groups.map fun group =>
      PathSegment.key group.key).Nodup := by
    have hMap := hKeys.map (f := PathSegment.key)
      (fun a b hSame => PathSegment.key.inj hSame)
    rwa [List.map_map] at hMap
  have hNodup := h.nodup_paths hSegments
    (fun group _ slot? own hOwn => hOwn.below)
    (fun group _ slot? own hOwn => hOwn.nodup)
  cases hSlots : slots? with
  | none =>
      exact .givenUp hBelow hNodup
        (h.errors_ne_nil (fun _ _ hOwn => hOwn.failed) hSlots)
  | some slots =>
      rcases h.exists_parts hSlots with
        ⟨parts, hParts, rfl, rfl⟩
      have hNames :=
        (keys_sublist_of_groups hParts).nodup hKeys
      refine .container (by simp) hBelow hNodup ?_ ?_
      · intro segment member hMember
        cases segment with
        | index i => cases hMember
        | key name =>
            have hEntry : Entries.get?
                ((parts.map Prod.fst).filterMap id) name =
                  some member := by
              simpa using hMember
            rcases List.mem_filterMap.1
                (Entries.mem_of_get? hEntry) with
              ⟨slot, hSlot, rfl⟩
            rcases List.mem_map.1 hSlot with
              ⟨⟨_, own⟩, hPart, rfl⟩
            rcases Results.exists_of_forall₂_of_mem hParts hPart with
              ⟨group, -, hGroup⟩
            rcases hGroup.of_entry with ⟨rfl, hAccounts⟩
            refine ⟨own, ?_, hAccounts⟩
            intro error hError
            exact List.mem_flatMap.2 ⟨_, hPart, hError⟩
      · intro error hError
        rcases List.mem_flatMap.1 hError with
          ⟨⟨slot, own⟩, hPart, hOwn⟩
        rcases Results.exists_of_forall₂_of_mem hParts hPart with
          ⟨group, -, hGroup⟩
        rcases hGroup.exists_entry
            (List.ne_nil_of_mem hOwn) with ⟨value, rfl⟩
        have hMem : (group.key, value) ∈
            (parts.map Prod.fst).filterMap id :=
          List.mem_filterMap.2
            ⟨some (group.key, value),
              List.mem_map.2 ⟨_, hPart, rfl⟩, rfl⟩
        have hFound := Entries.get?_eq_some_of_mem hNames hMem
        refine ⟨.key group.key, value, own, ?_, hOwn,
          hGroup.of_entry.2⟩
        rw [Json.at?_object, hFound]
        exact Json.at?_nil value

------------------------------------------------------------
-- Execution
------------------------------------------------------------

/- A group of a reached object is in agreement. -/
theorem groupAccounts_of_outcome
    {type : ObjectType}
    {source : Json}
    {selections : List Selection}
    {group : FieldGroup}
    {slot? : Option (Option (String × Json))}
    (hReached :
      context.ReachesObject root selected path type source
        selections)
    (hGroup : group ∈ context.collect type selections)
    (h :
      GroupOutcome
        (fun info group type path value value? errors =>
          context.ReachesValue root selected info group type path
              value →
            context.Accounts root selected path value? errors)
        context path type source group slot? errors) :
    GroupAccounts context root selected path group slot?
      errors := by
  cases h with
  | typename hName =>
      refine .inr ⟨some (.string type.name), rfl, .ofValue ?_⟩
      intro rest hNull
      cases rest with
      | nil => cases hNull
      | cons segment rest => cases segment <;> cases hNull
  | unknown hName hField => exact .inl ⟨rfl, rfl⟩
  | @field field value? _ hName hField hOutcome =>
      refine .inr ⟨_, rfl, ?_⟩
      cases hOutcome with
      | argument hArgument =>
          exact (Accounts.fault _ _).settled
      | resolver hArguments hResult =>
          exact (Accounts.fault _ _).settled
      | value hYields hValue =>
          exact
            (hValue
              (.field hReached hGroup hName hField
                hYields)).settled

/-
  What is completed at a reached place is in agreement, and the
  errors of an object are below it.
-/
theorem accounts_invariant
    (context : ExecutionContext)
    (root : ObjectType)
    (selected : List Selection) :
    context.Invariant
      (fun info group type path value value? errors =>
        context.ReachesValue root selected info group type path
            value →
          context.Accounts root selected path value? errors)
      (fun path type source selections entries? errors =>
        context.ReachesObject root selected path type source
            selections →
          context.Accounts root selected path
              (entries?.map Json.object) errors ∧
            ∀ error ∈ errors, error.path ≠ path) where
  null {info group type path} hNullable := by
    intro hReached
    refine .ofValue ?_
    intro rest hNull
    rw [Json.eq_nil_of_at?_null hNull, List.append_nil]
    exact .given hReached
  fault hFault := by
    intro hReached
    exact .fault _ _
  leaf hValue hLookup hLeaf hSerialize := by
    intro hReached
    refine .ofValue ?_
    intro rest hNull
    exact .leaf hReached hValue hLookup hLeaf hSerialize hNull
  list hItems := by
    intro hReached
    refine accounts_of_items (hItems.imp ?_)
    rintro ⟨item, i⟩ hItem value? own hOwn
    have hAt := List.mk_mem_zipIdx_iff_getElem?.1 hItem
    cases hOwn with
    | intro hValue =>
        exact (hValue (.item hReached hAt)).settled
  object hValue hRuntime hObject := by
    intro hReached
    exact (hObject (.value hReached hValue hRuntime)).1
  groups {path type source selections slots? errors} hGroups := by
    intro hReached
    have hOutcomes := hGroups.imp
      (fun group hGroup slot? own hOwn =>
        groupAccounts_of_outcome hReached hGroup hOwn)
    refine ⟨accounts_of_groups ?_ hOutcomes, ?_⟩
    · exact Collector.nodup_keys_collect
        ⟨context.schema, context.document, context.bindings,
          type⟩
        selections
    · intro error hError hPath
      rcases hOutcomes.exists_of_mem hError with
        ⟨group, -, slot?, own, hOwn, hMem⟩
      have hLength := (hOwn.below error hMem).length_le
      rw [hPath, List.length_append] at hLength
      exact absurd hLength (by simp)

end ExecutionContext

------------------------------------------------------------
-- Responses
------------------------------------------------------------

/-
  Errors of a response that has data are at places of their
  own, each of them at or below a null; data is null for an
  error only; and every null is at or above the place of an
  error, or was given by a resolver, a list or a leaf.
-/
theorem Request.errors_account_for_nulls
    (request : Request)
    (schema : Schema)
    (hooks : Hooks)
    (fuel : Nat)
    (document : ExecutableDocument)
    (answer : Run)
    (data : Json)
    (h : request.execute schema hooks fuel document = some answer)
    (hData : answer.response.data = some data) :
    (∀ error ∈ answer.response.errors, error.path ≠ []) ∧
      (answer.response.errors.map ResponseError.path).Nodup ∧
      (∀ error ∈ answer.response.errors, ∃ place,
        place <+: error.path ∧ data.at? place = some .null) ∧
      (data = .null → answer.response.errors ≠ []) ∧
      ∃ start : Request.Start request schema fuel document,
        ∀ place, data.at? place = some .null →
          (∃ error ∈ answer.response.errors,
            place <+: error.path) ∨
          (start.context hooks).NullAt start.root
            start.operation.selections place := by
  rcases exists_start h hData with ⟨start, outcome, hOutcome, rfl⟩
  have hInvariant := (start.context hooks).accounts_invariant
    start.root start.operation.selections
  have hHolds := hInvariant.holds
    (Completion.gives_of_eq_some hOutcome) .root
  rcases hHolds with ⟨hAccounts, hBelow⟩
  have hPaths :
      (run start.operation outcome).response.errors.map
          ResponseError.path =
        outcome.errors.map FieldError.path := by
    simp [run, FieldError.report, Function.comp_def]
  have hTotal :
      (start.context hooks).Accounts start.root
        start.operation.selections [] (some data)
        outcome.errors := by
    cases hValue : outcome.value with
    | none =>
        have hNull : Json.null = data := by
          simpa [run, hValue] using hData
        rw [hValue] at hAccounts
        exact hNull ▸ hAccounts.nulled
    | some entries =>
        have hObject : Json.object entries = data := by
          simpa [run, hValue] using hData
        rw [hValue] at hAccounts
        exact hObject ▸ hAccounts
  refine ⟨?_, ?_, ?_, ?_, start, ?_⟩
  · intro error hError
    rcases List.mem_map.1 hError with ⟨found, hFound, rfl⟩
    exact hBelow found hFound
  · rw [hPaths]
    exact hAccounts.nodup
  · intro error hError
    rcases List.mem_map.1 hError with ⟨found, hFound, rfl⟩
    exact hTotal.covered data rfl found hFound
  · rintro rfl hErrors
    have hNone : outcome.value = none := by
      cases hValue : outcome.value with
      | none => rfl
      | some entries => simp [run, hValue] at hData
    rw [hNone] at hAccounts
    exact hAccounts.failed rfl (List.map_eq_nil_iff.1 hErrors)
  · intro place hNull
    rcases hTotal.explained data rfl place hNull with
      ⟨error, hError, hPrefix⟩ | hElsewhere
    · exact .inl
        ⟨error.report, List.mem_map_of_mem hError, hPrefix⟩
    · exact .inr hElsewhere

/- The answer about the catalogue accounts for its nulls. -/
theorem Catalogue.errors_account_for_nulls_of_entries :
    request.execute schema hooks 6 requested = some answer ∧
      answer.response.data = some (.object entries) ∧
      (∀ error ∈ answer.response.errors, error.path ≠ []) ∧
      (answer.response.errors.map ResponseError.path).Nodup ∧
      (∀ error ∈ answer.response.errors, ∃ place,
        place <+: error.path ∧
          (Json.object entries).at? place = some .null) ∧
      (Json.object entries = .null →
        answer.response.errors ≠ []) ∧
      ∃ start : Request.Start request schema 6 requested,
        ∀ place, (Json.object entries).at? place = some .null →
          (∃ error ∈ answer.response.errors,
            place <+: error.path) ∨
          (start.context hooks).NullAt start.root
            start.operation.selections place := by
  have hAnswer :
      request.execute schema hooks 6 requested = some answer := by
    rfl
  have hData :
      answer.response.data = some (.object entries) := by
    rfl
  exact
    ⟨hAnswer, hData,
      Request.errors_account_for_nulls request schema hooks 6
        requested answer (.object entries) hAnswer hData⟩

end GraphQL
