import GraphQL.Proofs.Execution.DeclaredPlaces

/-
  Nulls at places whose types do not admit null.

  An error is passed on until a place admits null, so such a
  place is null for one reason only: the type of a leaf has
  serialized its value to null.

  Key definitions include:
    * `ExecutionContext.NullLeaf`
    * `ExecutionContext.SettlesAt`: an error ends at a place
    * `ExecutionContext.NullSafe`

  Main declarations:
    * `ExecutionContext.nullSafe_invariant`
    * `Request.nonNull_places`
    * `Blank.erased_at_nonNull`
-/

------------------------------------------------------------
-- Traversals
------------------------------------------------------------

namespace GraphQL

namespace Completion

variable {α β : Type}
variable {values? : Option (List β)} {errors : List FieldError}

/- A traversal without values has a member without one. -/
theorem Traversed.exists_stop
    {Member : α → Option β → List FieldError → Prop}
    {members : List α}
    (h : Traversed Member members values? errors)
    (hNone : values? = none) :
    ∃ a ∈ members, ∃ own, Member a none own ∧ own ⊆ errors := by
  induction h with
  | nil => cases hNone
  | @stop a rest own hStop =>
      exact ⟨a, List.mem_cons_self, own, hStop, fun _ h => h⟩
  | step _ _ ih =>
      rcases ih (Option.map_eq_none_iff.1 hNone) with
        ⟨a, hMem, own, hStop, hOwn⟩
      exact ⟨a, List.mem_cons_of_mem _ hMem, own, hStop,
        fun _ hError => List.mem_append_right _ (hOwn hError)⟩

/- Each value of a traversal is that of the member there. -/
theorem Traversed.exists_member
    {Member : α → Option β → List FieldError → Prop}
    {members : List α}
    {values : List β}
    (h : Traversed Member members (some values) errors)
    {i : Nat}
    {value : β}
    (hValue : values[i]? = some value) :
    ∃ a own, members[i]? = some a ∧
      Member a (some value) own ∧ own ⊆ errors := by
  rcases h.exists_parts rfl with ⟨parts, hParts, rfl, rfl⟩
  rw [List.getElem?_map] at hValue
  rcases Option.map_eq_some_iff.1 hValue with ⟨part, hPart, rfl⟩
  rcases List.getElem?_eq_some_iff.1 hPart with ⟨hBound, hSame⟩
  have hMember : i < members.length :=
    hParts.length_eq ▸ hBound
  have hOwn := hParts.get hMember hBound
  simp only [List.get_eq_getElem, hSame] at hOwn
  refine ⟨members[i], part.2, by simp [hMember], hOwn, ?_⟩
  intro error hError
  exact List.mem_flatMap.2
    ⟨part, List.mem_of_getElem? hPart, hError⟩

/- What is given up does not admit null. -/
theorem eq_false_of_settled
    {type : TypeRef}
    {value? : Option Json}
    (h : settled type value? = none) :
    type.nullable = false := by
  cases value? with
  | some value => cases h
  | none =>
      cases hType : type.nullable with
      | false => rfl
      | true => simp [settled, hType] at h

end Completion

------------------------------------------------------------
-- Null Safety
------------------------------------------------------------

namespace ExecutionContext

open Completion

variable {context : ExecutionContext} {root : ObjectType}
variable {selected : List Selection}
variable {path : List PathSegment} {errors : List FieldError}

/- The value of a leaf is serialized to null. -/
inductive NullLeaf
    (self : ExecutionContext)
    (root : ObjectType)
    (selected : List Selection) :
    List PathSegment → Prop where
  | intro {info : ResolveInfo} {group : FieldGroup}
      {name : String} {nullable : Bool}
      {location : SourceLocation} {path : List PathSegment}
      {value : Json} {type : NamedType} :
      self.ReachesValue root selected info group
        (.named name nullable location) path value →
      self.schema.lookup name = some type →
      type.isLeaf = true →
      type.serialize value = .ok .null →
      NullLeaf self root selected path

/-
  An error settles at a place: no type that is declared between the
  place and that of the error admits null.
-/
structure SettlesAt
    (context : ExecutionContext)
    (root : ObjectType)
    (selected : List Selection)
    (place path : List PathSegment) : Prop where
  above : place <+: path
  nonNull : ∀ other type,
    context.Declares root selected other type →
    place <+: other → other ≠ place → other <+: path →
    type.nullable = false

/-
  What stands at a place, if anything does, is null at a place
  that does not admit it only for a leaf. Other nulls were given
  or stand where an error settles, and without a value an error is
  passed on.
-/
structure NullSafe
    (context : ExecutionContext)
    (root : ObjectType)
    (selected : List Selection)
    (path : List PathSegment)
    (value? : Option Json)
    (errors : List FieldError) : Prop where
  nonNull : ∀ value, value? = some value →
    ∀ rest type,
      context.Declares root selected (path ++ rest) type →
      type.nullable = false →
      ∀ found, value.at? rest = some found →
        (found = .null ↔
          context.NullLeaf root selected (path ++ rest))
  ended : ∀ value, value? = some value →
    ∀ rest, value.at? rest = some .null →
      context.NullAt root selected (path ++ rest) ∨
        ∃ error ∈ errors,
          context.SettlesAt root selected (path ++ rest) error.path
  passed : value? = none →
    ∃ error ∈ errors,
      context.SettlesAt root selected path error.path

/- An error settles at its own place if it is not passed on. -/
theorem SettlesAt.refl (path : List PathSegment) :
    context.SettlesAt root selected path path where
  above := List.prefix_refl path
  nonNull other type _ hBelow hNe hAbove := by
    have hSame : path = other :=
      hBelow.eq_of_length_le hAbove.length_le
    exact absurd hSame.symm hNe

/- A place that does not admit null passes an error on. -/
theorem SettlesAt.pass
    {segment : PathSegment}
    {place : List PathSegment}
    (h : context.SettlesAt root selected (path ++ [segment]) place)
    (hNonNull : ∀ type,
      context.Declares root selected (path ++ [segment]) type →
      type.nullable = false) :
    context.SettlesAt root selected path place where
  above := (List.prefix_append path [segment]).trans h.above
  nonNull other type hDeclared hBelow hNe hAbove := by
    have hLength : path.length ≠ other.length := by
      intro hLength
      exact hNe (hBelow.eq_of_length hLength).symm
    have hLonger : (path ++ [segment]).length ≤ other.length := by
      have hAtMost := hBelow.length_le
      simp only [List.length_append, List.length_singleton]
      omega
    have hNext : path ++ [segment] <+: other :=
      List.prefix_of_prefix_length_le h.above hAbove hLonger
    by_cases hHere : other = path ++ [segment]
    · exact hNonNull type (hHere ▸ hDeclared)
    · exact h.nonNull other type hDeclared hNext hHere hAbove

namespace NullSafe

/- An error that is passed on. -/
theorem fault
    (fault : FieldFault)
    (position : Position) :
    context.NullSafe root selected path none
      [⟨fault, path, position⟩] where
  nonNull := nofun
  ended := nofun
  passed _ := ⟨_, List.mem_singleton_self _, .refl path⟩

/- Null at a place that admits it, given or due to an error. -/
theorem null
    {type : TypeRef}
    (hDeclared : context.Declares root selected path type)
    (hNullable : type.nullable = true)
    (hEnded : context.NullAt root selected path ∨
      ∃ error ∈ errors,
        context.SettlesAt root selected path error.path) :
    context.NullSafe root selected path (some .null) errors where
  nonNull := by
    rintro _ ⟨⟩ rest other hOther hNonNull found hFound
    rw [Json.eq_nil_of_at?_null hFound, List.append_nil] at hOther
    rw [hDeclared.unique hOther, hNonNull] at hNullable
    cases hNullable
  ended := by
    rintro _ ⟨⟩ rest hNull
    rw [Json.eq_nil_of_at?_null hNull, List.append_nil]
    exact hEnded
  passed := nofun

/- A place that admits null ends an error. -/
theorem settled
    {type : TypeRef}
    {value? : Option Json}
    (hDeclared : context.Declares root selected path type)
    (h : context.NullSafe root selected path value? errors) :
    context.NullSafe root selected path
      (Completion.settled type value?) errors := by
  cases value? with
  | some value => exact h
  | none =>
      cases hType : type.nullable with
      | false => simpa [Completion.settled, hType] using h
      | true =>
          have hNull := NullSafe.null hDeclared hType
            (.inr (h.passed rfl))
          simpa [Completion.settled, hType] using hNull

/-
  A list or an object is safe if each of its members is, with
  errors among its own.
-/
theorem container
    {value : Json}
    (hValue : value ≠ .null)
    (hLeaf : ¬context.NullLeaf root selected path)
    (hMember : ∀ segment member,
      value.at? [segment] = some member →
      ∃ own, own ⊆ errors ∧
        context.NullSafe root selected (path ++ [segment])
          (some member) own) :
    context.NullSafe root selected path (some value) errors where
  nonNull := by
    rintro _ ⟨⟩ rest type hDeclared hNonNull found hFound
    cases rest with
    | nil =>
        rw [Json.at?_nil] at hFound
        cases hFound
        rw [List.append_nil]
        exact ⟨fun h => absurd h hValue, fun h => absurd h hLeaf⟩
    | cons segment rest =>
        rw [Json.at?_cons] at hFound
        rcases Option.bind_eq_some_iff.1 hFound with
          ⟨member, hAt, hRest⟩
        rcases hMember segment member hAt with ⟨own, _, hSafe⟩
        rw [List.append_cons] at hDeclared ⊢
        exact hSafe.nonNull member rfl rest type hDeclared
          hNonNull found hRest
  ended := by
    rintro _ ⟨⟩ rest hNull
    cases rest with
    | nil => exact absurd (by simpa using hNull) hValue
    | cons segment rest =>
        rw [Json.at?_cons] at hNull
        rcases Option.bind_eq_some_iff.1 hNull with
          ⟨member, hAt, hRest⟩
        rcases hMember segment member hAt with ⟨own, hOwn, hSafe⟩
        rw [List.append_cons]
        refine (hSafe.ended member rfl rest hRest).imp_right ?_
        rintro ⟨error, hError, hEnds⟩
        exact ⟨error, hOwn hError, hEnds⟩
  passed := nofun

/- What is given up passes on an error of a member. -/
theorem givenUp
    {segment : PathSegment}
    {own : List FieldError}
    (hOwn : own ⊆ errors)
    (hSafe : context.NullSafe root selected (path ++ [segment])
      none own)
    (hNonNull : ∀ type,
      context.Declares root selected (path ++ [segment]) type →
      type.nullable = false) :
    context.NullSafe root selected path none errors where
  nonNull := nofun
  ended := nofun
  passed _ := by
    rcases hSafe.passed rfl with ⟨error, hError, hEnds⟩
    exact ⟨error, hOwn hError, hEnds.pass hNonNull⟩

end NullSafe

------------------------------------------------------------
-- Leaves
------------------------------------------------------------

/- A null leaf is the one value that is reached at its place. -/
theorem NullLeaf.of_reachesValue
    {info : ResolveInfo}
    {group : FieldGroup}
    {ref : TypeRef}
    {value : Json}
    (h : context.NullLeaf root selected path)
    (hReached : context.ReachesValue root selected info group ref
      path value) :
    ∃ name nullable location type,
      ref = .named name nullable location ∧
        context.schema.lookup name = some type ∧
        type.isLeaf = true ∧ type.serialize value = .ok .null := by
  cases h with
  | intro hValue hLookup hLeaf hSerialize =>
      rcases (reaches_unique context root selected path).1
          _ _ _ _ _ _ _ _ hValue hReached with
        ⟨_, _, rfl, rfl⟩
      exact ⟨_, _, _, _, rfl, hLookup, hLeaf, hSerialize⟩

/- Where an object is reached, there is no leaf. -/
theorem ReachesObject.not_leaf
    {object : ObjectType}
    {source : Json}
    {selections : List Selection}
    (h : context.ReachesObject root selected path object source
      selections)
    {info : ResolveInfo}
    {group : FieldGroup}
    {name : String}
    {nullable : Bool}
    {location : SourceLocation}
    {value : Json}
    {type : NamedType}
    (hReached : context.ReachesValue root selected info group
      (.named name nullable location) path value)
    (hLookup : context.schema.lookup name = some type) :
    type.isLeaf = false := by
  rcases h.of_ne_nil hReached.ne_nil with
    ⟨_, _, _, _, _, hValue, hType⟩
  rcases (reaches_unique context root selected path).1
      _ _ _ _ _ _ _ _ hValue hReached with
    ⟨_, _, hRef, rfl⟩
  cases hRef
  exact hType.not_leaf hLookup

theorem ReachesObject.not_nullLeaf
    {object : ObjectType}
    {source : Json}
    {selections : List Selection}
    (h : context.ReachesObject root selected path object source
      selections) :
    ¬context.NullLeaf root selected path := by
  rintro ⟨hValue, hLookup, hLeaf, -⟩
  rw [h.not_leaf hValue hLookup] at hLeaf
  cases hLeaf

section

variable {info : ResolveInfo} {group : FieldGroup}
variable {name : String} {nullable : Bool}
variable {location : SourceLocation}
variable {value result : Json} {type : NamedType}

/- No type is declared below a leaf. -/
theorem not_declares_below_leaf
    (hReached : context.ReachesValue root selected info group
      (.named name nullable location) path value)
    (hLookup : context.schema.lookup name = some type)
    (hLeaf : type.isLeaf = true)
    {rest : List PathSegment}
    (hRest : rest ≠ [])
    (ref : TypeRef) :
    ¬context.Declares root selected (path ++ rest) ref := by
  intro hDeclared
  rcases hDeclared.container hRest with
    ⟨_, _, _, hObject⟩ | ⟨_, _, _, hList⟩
  · rw [hObject.not_leaf hReached hLookup] at hLeaf
    cases hLeaf
  · cases hList.unique (.of_reachesValue hReached)

/- A leaf is null if and only if it is serialized to null. -/
theorem nullSafe_leaf
    (hReached : context.ReachesValue root selected info group
      (.named name nullable location) path value)
    (hValue : value.isNull = false)
    (hLookup : context.schema.lookup name = some type)
    (hLeaf : type.isLeaf = true)
    (hSerialize : type.serialize value = .ok result) :
    context.NullSafe root selected path (some result) [] where
  nonNull := by
    rintro _ ⟨⟩ rest ref hDeclared hNonNull found hFound
    by_cases hRest : rest = []
    · subst hRest
      rw [Json.at?_nil] at hFound
      cases hFound
      rw [List.append_nil]
      constructor
      · rintro rfl
        exact .intro hReached hLookup hLeaf hSerialize
      · intro hNull
        rcases hNull.of_reachesValue hReached with
          ⟨_, _, _, _, hRef, hFound, _, hNulled⟩
        cases hRef
        rw [hLookup] at hFound
        cases hFound
        exact Except.ok.inj (hSerialize.symm.trans hNulled)
    · exact absurd hDeclared
        (not_declares_below_leaf hReached hLookup hLeaf hRest ref)
  ended := by
    rintro _ ⟨⟩ rest hNull
    exact .inl
      (.leaf hReached hValue hLookup hLeaf hSerialize hNull)
  passed := nofun

end

------------------------------------------------------------
-- Lists
------------------------------------------------------------

/- An item is safe, and given up only if it must not be null. -/
def ItemSafe
    (context : ExecutionContext)
    (root : ObjectType)
    (selected : List Selection)
    (path : List PathSegment)
    (inner : TypeRef)
    (item : Json × Nat)
    (value? : Option Json)
    (own : List FieldError) : Prop :=
  context.NullSafe root selected (path ++ [.index item.2]) value?
      own ∧
    (value? = none → inner.nullable = false)

/- A list is safe if its items are. -/
theorem nullSafe_list
    {info : ResolveInfo}
    {group : FieldGroup}
    {inner : TypeRef}
    {nullable : Bool}
    {location : SourceLocation}
    {items : List Json}
    {results? : Option (List Json)}
    (hReached : context.ReachesValue root selected info group
      (.list inner nullable location) path (.array items))
    (h : Traversed
      (ItemSafe context root selected path inner) items.zipIdx
      results? errors) :
    context.NullSafe root selected path
      (results?.map Json.array) errors := by
  cases results? with
  | none =>
      rcases h.exists_stop rfl with
        ⟨item, hItem, own, ⟨hSafe, hNonNull⟩, hOwn⟩
      refine .givenUp hOwn hSafe ?_
      intro type hDeclared
      have hList := Declares.of_reachesValue hReached
      rw [hDeclared.unique (.item hList)]
      exact hNonNull rfl
  | some results =>
      refine .container (by simp) ?_ ?_
      · intro hNull
        rcases hNull.of_reachesValue hReached with
          ⟨_, _, _, _, hRef, _⟩
        cases hRef
      · intro segment member hMember
        cases segment with
        | key name => cases hMember
        | index i =>
            have hResult : results[i]? = some member := by
              simpa using hMember
            rcases h.exists_member hResult with
              ⟨⟨item, j⟩, own, hItem, ⟨hSafe, _⟩, hOwn⟩
            have hIndex : i = j := by
              rw [List.getElem?_zipIdx] at hItem
              rcases Option.map_eq_some_iff.1 hItem with
                ⟨_, _, hPair⟩
              simpa using (Prod.mk.inj hPair).2
            subst hIndex
            exact ⟨own, hOwn, hSafe⟩

------------------------------------------------------------
-- Objects
------------------------------------------------------------

/- A group is safe, and given up only if it must not be null. -/
def GroupSafe
    (context : ExecutionContext)
    (root : ObjectType)
    (selected : List Selection)
    (path : List PathSegment)
    (group : FieldGroup)
    (slot? : Option (Option (String × Json)))
    (own : List FieldError) : Prop :=
  slot? = some none ∨
    ∃ value?,
      slot? = value?.map (fun value => some (group.key, value)) ∧
        context.NullSafe root selected
          (path ++ [.key group.key]) value? own ∧
        (value? = none → ∀ type,
          context.Declares root selected
            (path ++ [.key group.key]) type →
          type.nullable = false)

section

variable {object : ObjectType} {source : Json}
variable {selections : List Selection}
variable (hReached : context.ReachesObject root selected path
  object source selections)

include hReached

/- An object is safe if its groups are. -/
theorem nullSafe_object
    {groups : List FieldGroup}
    {slots? : Option (List (Option (String × Json)))}
    (h : Traversed (GroupSafe context root selected path) groups
      slots? errors) :
    context.NullSafe root selected path
      ((slots?.map fun slots => slots.filterMap id).map
        Json.object)
      errors := by
  cases slots? with
  | none =>
      rcases h.exists_stop rfl with
        ⟨group, _, own, hGroup, hOwn⟩
      rcases hGroup with hNone | ⟨value?, hNone, hSafe, hNonNull⟩
      · cases hNone
      · have hValue := Option.map_eq_none_iff.1 hNone.symm
        subst hValue
        exact .givenUp hOwn hSafe (hNonNull rfl)
  | some slots =>
      refine .container (by simp) hReached.not_nullLeaf ?_
      intro segment member hMember
      cases segment with
      | index i => cases hMember
      | key name =>
          have hEntry : Entries.get? (slots.filterMap id) name =
              some member := by
            simpa using hMember
          rcases List.mem_filterMap.1
              (Entries.mem_of_get? hEntry) with
            ⟨_, hSlot, rfl⟩
          rcases List.getElem?_of_mem hSlot with ⟨i, hAt⟩
          rcases h.exists_member hAt with
            ⟨group, own, _, hGroup, hOwn⟩
          rcases hGroup with hNone | ⟨value?, hSome, hSafe, _⟩
          · cases hNone
          · rcases Option.map_eq_some_iff.1 hSome.symm with
              ⟨value, rfl, hPair⟩
            cases hPair
            exact ⟨own, hOwn, hSafe⟩

/- No type is declared for the name of a type. -/
theorem not_declares_typename
    {group : FieldGroup}
    (hGroup : group ∈ context.collect object selections)
    (hName : group.first.head.name = "__typename")
    (type : TypeRef) :
    ¬context.Declares root selected (path ++ [.key group.key])
      type := by
  intro hDeclared
  rcases hDeclared.of_key with
    ⟨_, _, other, _, ⟨hReached', hOther, hNe, _⟩, hKey, _⟩
  rcases (reaches_unique context root selected path).2
      _ _ _ _ _ _ hReached hReached' with
    ⟨rfl, rfl, rfl⟩
  have hSame : group = other := by
    refine List.inj_on_of_nodup_map ?_ hGroup hOther hKey
    exact Collector.nodup_keys_collect _ _
  exact hNe (hSame ▸ hName)

theorem nullSafe_typename
    {group : FieldGroup}
    (hGroup : group ∈ context.collect object selections)
    (hName : group.first.head.name = "__typename")
    (name : String) :
    context.NullSafe root selected (path ++ [.key group.key])
      (some (.string name)) [] where
  nonNull := by
    rintro _ ⟨⟩ rest type hDeclared _ found hFound
    rw [Json.eq_nil_of_at?_string hFound, List.append_nil]
      at hDeclared
    exact absurd hDeclared
      (not_declares_typename hReached hGroup hName type)
  ended := by
    rintro _ ⟨⟩ rest hNull
    have hHere := Json.eq_nil_of_at?_string hNull
    subst hHere
    cases hNull
  passed := nofun

/- A group of a reached object is safe. -/
theorem groupSafe_of_outcome
    {group : FieldGroup}
    {slot? : Option (Option (String × Json))}
    (hGroup : group ∈ context.collect object selections)
    (h :
      GroupOutcome
        (fun info group type path value value? errors =>
          context.ReachesValue root selected info group type path
              value →
            context.NullSafe root selected path value? errors)
        context path object source group slot? errors) :
    context.GroupSafe root selected path group slot? errors := by
  cases h with
  | typename hName =>
      exact .inr ⟨_, rfl,
        nullSafe_typename hReached hGroup hName _, nofun⟩
  | unknown _ _ => exact .inl rfl
  | @field field value? _ hName hField hOutcome =>
      have hDeclared := Declares.field
        (.intro hReached hGroup hName hField)
      have hSafe : context.NullSafe root selected
          (path ++ [.key group.key]) value? errors := by
        cases hOutcome with
        | argument _ => exact .fault _ _
        | resolver _ _ => exact .fault _ _
        | value hYields hValue =>
            exact hValue
              (.field hReached hGroup hName hField hYields)
      refine .inr ⟨_, rfl, hSafe.settled hDeclared, ?_⟩
      intro hNone type hType
      rw [hType.unique hDeclared]
      exact eq_false_of_settled hNone

end

------------------------------------------------------------
-- Execution
------------------------------------------------------------

/- What is completed at reached places is safe. -/
theorem nullSafe_invariant
    (context : ExecutionContext)
    (root : ObjectType)
    (selected : List Selection) :
    context.Invariant
      (fun info group type path value value? errors =>
        context.ReachesValue root selected info group type path
            value →
          context.NullSafe root selected path value? errors)
      (fun path type source selections entries? errors =>
        context.ReachesObject root selected path type source
            selections →
          context.NullSafe root selected path
            (entries?.map Json.object) errors) where
  null hNullable hReached :=
    .null (.of_reachesValue hReached) hNullable
      (.inl (.given hReached))
  fault _ _ := .fault _ _
  leaf hValue hLookup hLeaf hSerialize hReached :=
    nullSafe_leaf hReached hValue hLookup hLeaf hSerialize
  list hItems := by
    intro hReached
    refine nullSafe_list hReached (hItems.imp ?_)
    rintro ⟨item, i⟩ hItem value? own ⟨hValue⟩
    have hAt := List.mk_mem_zipIdx_iff_getElem?.1 hItem
    have hDeclared := Declares.of_reachesValue hReached
    exact ⟨(hValue (.item hReached hAt)).settled
      (.item hDeclared), eq_false_of_settled⟩
  object hValue hRuntime hObject := by
    intro hReached
    exact hObject (.value hReached hValue hRuntime)
  groups hGroups := by
    intro hReached
    refine nullSafe_object hReached (hGroups.imp ?_)
    intro group hGroup slot? own hOwn
    exact groupSafe_of_outcome hReached hGroup hOwn

end ExecutionContext

------------------------------------------------------------
-- Responses
------------------------------------------------------------

/-
  Where a type that does not admit null is declared for a place
  of the data of a response, null stands there exactly if a leaf
  is serialized to null. Every null of the data is given by a
  resolver, a list or a leaf, or an error settles there: nothing
  between the two admits null.
-/
theorem Request.nonNull_places
    {request : Request}
    {schema : Schema}
    {hooks : Hooks}
    {fuel : Nat}
    {document : ExecutableDocument}
    {answer : Run}
    {data : Json}
    (h : request.execute schema hooks fuel document = some answer)
    (hData : answer.response.data = some data) :
    ∃ start : Request.Start request schema fuel document,
      (∀ place type,
        (start.context hooks).Declares start.root
          start.operation.selections place type →
        type.nullable = false →
        ∀ found, data.at? place = some found →
          (found = .null ↔
            (start.context hooks).NullLeaf start.root
              start.operation.selections place)) ∧
      ∀ place, data.at? place = some .null →
        (start.context hooks).NullAt start.root
            start.operation.selections place ∨
          ∃ error ∈ answer.response.errors,
            (start.context hooks).SettlesAt start.root
              start.operation.selections place error.path := by
  rcases exists_start h hData with ⟨start, outcome, hOutcome, rfl⟩
  have hInvariant := (start.context hooks).nullSafe_invariant
    start.root start.operation.selections
  have hHolds := hInvariant.holds
    (Completion.gives_of_eq_some hOutcome) .root
  refine ⟨start, ?_⟩
  cases hValue : outcome.value with
  | some entries =>
      rw [hValue] at hHolds
      have hObject : Json.object entries = data := by
        simpa [run, hValue] using hData
      subst hObject
      refine ⟨hHolds.nonNull _ rfl, ?_⟩
      intro place hNull
      refine (hHolds.ended _ rfl place hNull).imp_right ?_
      rintro ⟨error, hError, hEnds⟩
      exact ⟨error.report, List.mem_map_of_mem hError, hEnds⟩
  | none =>
      rw [hValue] at hHolds
      have hNull : Json.null = data := by
        simpa [run, hValue] using hData
      subst hNull
      constructor
      · intro place type hDeclared _ found hFound
        exact absurd (Json.eq_nil_of_at?_null hFound)
          hDeclared.ne_nil
      · intro place hFound
        rw [Json.eq_nil_of_at?_null hFound]
        rcases hHolds.passed rfl with ⟨error, hError, hEnds⟩
        exact .inr
          ⟨error.report, List.mem_map_of_mem hError, hEnds⟩

------------------------------------------------------------
-- A Blank Field
------------------------------------------------------------

namespace Blank

open Catalogue (position place declared header field)

/- A field that must not be null, of a scalar type. -/
def document : TypeSystemDocument :=
  [ .type ⟨position, none, "Blank", [], .scalar⟩,
    .type
      ⟨position, none, "Query", [],
        .object [] [declared "blank" (.nonNull (.named "Blank"))]⟩]

/- A decorator by which scalars are serialized to null. -/
def erase : Decorator :=
  .ofFunction fun
    | .scalar type =>
        .scalar { type with serialize := some fun _ => .ok .null }
    | type => type

/- The object type of the document. -/
def query : ObjectType :=
  ⟨header "Query",
    ⟨[field "blank" (.named "Blank" false place)], [], none⟩, none⟩

/- The operation asks for the field. -/
def requested : ExecutableDocument :=
  [.operation
    { Catalogue.operation with
      selections := [Catalogue.select "blank" []] }]

def request : Request :=
  { Catalogue.request with
    rootValue := .object [("blank", .string "text")] }

/-
  The schema is built, and null is the answer for the field,
  without an error: the check is one of what resolvers give.
-/
theorem erased_at_nonNull :
    ∃ pass schema answer,
      Pass.empty.load none document = .ok pass ∧
        pass.build (some erase) = .ok schema ∧
        schema.lookup "Query" = some (.defined (.object query)) ∧
        request.execute schema Catalogue.hooks 3 requested =
          some answer ∧
        answer.response =
          ⟨[], some (.object [("blank", .null)])⟩ := by
  let built : Except BuildError Schema :=
    Pass.empty.load none document >>=
      fun pass => pass.build (some erase)
  have hFound :
      built.map (fun schema =>
        (schema.lookup "Query",
          (request.execute schema Catalogue.hooks 3
            requested).map Run.response)) =
        .ok
          (some (.defined (.object query)),
            some ⟨[], some (.object [("blank", .null)])⟩) := by
    with_unfolding_all rfl
  cases hSchema : built with
  | error error =>
      rw [hSchema] at hFound
      cases hFound
  | ok schema =>
      rw [hSchema] at hFound
      rcases Prod.mk.inj (Except.ok.inj hFound) with
        ⟨hQuery, hResponse⟩
      rcases Option.map_eq_some_iff.1 hResponse with
        ⟨answer, hAnswer, hResponse⟩
      rcases Results.bind_eq_ok_iff.1 hSchema with
        ⟨pass, hLoad, hBuild⟩
      exact
        ⟨pass, schema, answer, hLoad, hBuild, hQuery, hAnswer,
          hResponse⟩

end Blank

end GraphQL
