import Mathlib.Data.List.Nodup
import Mathlib.Tactic.TFAE
import GraphQL.Execution.Collection
import GraphQL.Proofs.Schema.Subtyping

/-
  Possible types: the objects that a value of an interface or
  union may have.

  The objects in the list of possible types, those that the
  test of a schema accepts, the subtypes of a type, and the
  objects that fragments on it apply to are the same. Where
  validation has closed the lists of interfaces, the objects of
  a subtype are objects of the type.

  Key definitions include:
    * `TypeGraph.Precedes`

  Main declarations:
    * `Schema.mem_possibleTypes_iff`
    * `Schema.isPossible_iff`
    * `Schema.possibleTypes_subset`
    * `Schema.Built.possible_types_agree`
-/

------------------------------------------------------------
-- Objects
------------------------------------------------------------

namespace GraphQL

namespace TypeGraph

/- An object stands before another one in a graph. -/
def Precedes
    (graph : TypeGraph)
    (first second : ObjectType) : Prop :=
  [first, second].Sublist graph.objects

variable {graph : TypeGraph} {object other : ObjectType}

theorem mem_objects_iff :
    object ∈ graph.objects ↔
      .defined (.object object) ∈ graph.types := by
  unfold objects
  rw [List.mem_filterMap]
  constructor
  · rintro ⟨type, hType, hObject⟩
    exact NamedType.eq_of_object?_eq_some hObject ▸ hType
  · intro h
    exact ⟨_, h, rfl⟩

/- An object is found under its name, and nowhere else. -/
theorem lookup_eq_object_iff
    {name : String} :
    graph.lookup name = some (.defined (.object object)) ↔
      object ∈ graph.objects ∧ object.name = name := by
  rw [mem_objects_iff]
  constructor
  · intro h
    exact ⟨mem_of_lookup h, name_of_lookup h⟩
  · rintro ⟨h, rfl⟩
    exact lookup_of_mem h

/- Objects of one name are the same. -/
theorem object_eq_of_name_eq
    (h : object ∈ graph.objects)
    (hOther : other ∈ graph.objects)
    (hName : object.name = other.name) : object = other := by
  have hObject := lookup_eq_object_iff.2 ⟨h, hName⟩
  rw [lookup_eq_object_iff.2 ⟨hOther, rfl⟩] at hObject
  cases hObject
  rfl

/- No object stands in a graph twice. -/
theorem nodup_objects (graph : TypeGraph) :
    graph.objects.Nodup := by
  refine List.Nodup.filterMap ?_ graph.nodup_names.of_map
  intro type type' object hObject hObject'
  rw [NamedType.eq_of_object?_eq_some hObject,
    NamedType.eq_of_object?_eq_some hObject']

/- The objects of a graph stand in its order. -/
theorem pairwise_precedes (graph : TypeGraph) :
    graph.objects.Pairwise graph.Precedes :=
  List.pairwise_iff_forall_sublist.2 id

end TypeGraph

------------------------------------------------------------
-- Lists Of Possible Types
------------------------------------------------------------

namespace Schema

variable {schema : Schema} {object : ObjectType}
variable {abstract other : NamedType}

theorem object?_eq_some_iff
    {name : String} :
    schema.object? name = some object ↔
      object ∈ schema.types.objects ∧ object.name = name := by
  rw [← TypeGraph.lookup_eq_object_iff]
  unfold object? lookup
  rw [Option.bind_eq_some_iff]
  constructor
  · rintro ⟨type, hType, hObject⟩
    rwa [← NamedType.eq_of_object?_eq_some hObject]
  · intro h
    exact ⟨_, h, rfl⟩

/- The implementors of an interface are those that list it. -/
theorem mem_implementors_iff
    {interface : String} :
    object ∈ schema.implementors interface ↔
      object ∈ schema.types.objects ∧
        interface ∈ object.shape.interfaces := by
  unfold implementors
  rw [List.mem_flatMap]
  constructor
  · rintro ⟨found, hFound, hSame⟩
    rcases List.mem_replicate.1 hSame with ⟨hCount, rfl⟩
    refine ⟨hFound, ?_⟩
    rwa [Ne, List.count_eq_zero, not_not] at hCount
  · rintro ⟨hObject, hListed⟩
    refine ⟨object, hObject, List.mem_replicate.2 ⟨?_, rfl⟩⟩
    rwa [Ne, List.count_eq_zero, not_not]

/- They stand in the order of the graph. -/
theorem pairwise_implementors
    (schema : Schema)
    (interface : String) :
    (schema.implementors interface).Pairwise
      fun first second =>
        first = second ∨ schema.types.Precedes first second := by
  unfold implementors
  rw [List.pairwise_flatMap]
  constructor
  · intro object _
    exact List.pairwise_replicate.2 (.inr (.inl rfl))
  · refine schema.types.pairwise_precedes.imp ?_
    intro first second hPrecedes object hFirst object' hSecond
    rw [List.eq_of_mem_replicate hFirst,
      List.eq_of_mem_replicate hSecond]
    exact .inr hPrecedes

/- Where no object lists an interface twice, each stands once. -/
theorem nodup_implementors
    (hOnce : ∀ object ∈ schema.types.objects,
      object.shape.interfaces.Nodup)
    (interface : String) :
    (schema.implementors interface).Nodup := by
  unfold implementors List.Nodup
  rw [List.pairwise_flatMap]
  constructor
  · intro object hObject
    refine List.pairwise_replicate.2 (.inl ?_)
    exact List.nodup_iff_count_le_one.1
      (hOnce object hObject) interface
  · refine schema.types.nodup_objects.imp ?_
    intro first second hNe object hFirst object' hSecond
    rwa [List.eq_of_mem_replicate hFirst,
      List.eq_of_mem_replicate hSecond]

/- The objects of a union stand in the order of its members. -/
theorem names_of_members
    {members : List String}
    (h : ∀ name ∈ members, schema.types.HasObject name) :
    (members.filterMap schema.object?).map ObjectType.name =
      members := by
  induction members with
  | nil => rfl
  | cons name members ih =>
      rw [List.forall_mem_cons] at h
      rcases h.1 with ⟨object, hLookup⟩
      have hObject : schema.object? name = some object :=
        object?_eq_some_iff.2
          (TypeGraph.lookup_eq_object_iff.1 hLookup)
      have hName : object.name = name :=
        TypeGraph.name_of_lookup hLookup
      rw [List.filterMap_cons_some hObject, List.map_cons,
        ih h.2, hName]

------------------------------------------------------------
-- Notions Of Possible Types
------------------------------------------------------------

/- The test of a schema accepts the objects in the list. -/
theorem isPossible_iff
    (hObject : object ∈ schema.types.objects) :
    schema.isPossible object abstract = true ↔
      object ∈ schema.possibleTypes abstract := by
  unfold isPossible possibleTypes
  split
  · next interface =>
      rw [List.any_eq_true]
      constructor
      · rintro ⟨found, hFound, hName⟩
        have hSame : found = object :=
          TypeGraph.object_eq_of_name_eq
            (mem_implementors_iff.1 hFound).1 hObject
            (by simpa using hName)
        exact hSame ▸ hFound
      · intro h
        exact ⟨object, h, by simp⟩
  · next union =>
      rw [List.contains_iff_mem, List.mem_filterMap]
      simp [object?_eq_some_iff, hObject]
  · simp

/- The possible types of an abstract type are its subtypes. -/
theorem mem_possibleTypes_iff
    (hAbstract : abstract ∈ schema.types.types)
    (hKind : abstract.isAbstract = true)
    (hObject : object ∈ schema.types.objects) :
    object ∈ schema.possibleTypes abstract ↔
      schema.types.isNameSubtype object.name abstract.name =
        true := by
  have hLookup := TypeGraph.lookup_of_mem hAbstract
  have hSelf :=
    TypeGraph.lookup_eq_object_iff.2 ⟨hObject, rfl⟩
  have hNe : (NamedType.defined (.object object)).name ≠
      abstract.name := by
    intro hName
    rw [← hName] at hLookup
    cases hSelf.symm.trans hLookup
    cases hKind
  cases abstract with
  | builtin scalar => cases scalar <;> cases hKind
  | defined type =>
      cases type with
      | interface type =>
          simp [TypeGraph.isNameSubtype, hLookup, hSelf, hNe,
            possibleTypes, mem_implementors_iff, hObject,
            ObjectType.implements]
      | union type =>
          simp [TypeGraph.isNameSubtype, hLookup, hSelf, hNe,
            possibleTypes, object?_eq_some_iff, hObject]
      | _ => cases hKind

/- A fragment on an abstract type applies to what passes. -/
theorem fragmentApplies_eq_isPossible
    (hAbstract : abstract ∈ schema.types.types)
    (hKind : abstract.isAbstract = true) :
    schema.fragmentApplies object abstract.name =
      schema.isPossible object abstract := by
  have hLookup : schema.lookup abstract.name = some abstract :=
    TypeGraph.lookup_of_mem hAbstract
  unfold fragmentApplies
  rw [hLookup]
  split
  · next hSame =>
      cases hSame
      cases hKind
  · next hSame =>
      cases hSame
      rfl
  · next hSame => cases hSame

/- A supertype of an abstract type is abstract. -/
theorem isAbstract_of_isNameSubtype
    (hAbstract : abstract ∈ schema.types.types)
    (hKind : abstract.isAbstract = true)
    (hOther : other ∈ schema.types.types)
    (hSub : schema.types.isNameSubtype abstract.name other.name =
      true) :
    other.isAbstract = true := by
  have hLookup := TypeGraph.lookup_of_mem hAbstract
  have hFound := TypeGraph.lookup_of_mem hOther
  rcases TypeGraph.isNameSubtype_iff.1 hSub with
    ⟨hName, -⟩ | ⟨⟨interface, hInterface⟩, -⟩ |
      ⟨⟨object, hObject⟩, -⟩
  · rw [hName, hFound] at hLookup
    cases hLookup
    exact hKind
  · rw [hFound] at hInterface
    cases hInterface
    rfl
  · rw [hLookup] at hObject
    cases hObject
    cases hKind

/- The possible types of a subtype are possible types. -/
theorem possibleTypes_subset
    (hValid : schema.types.validate = .ok ())
    (hAbstract : abstract ∈ schema.types.types)
    (hKind : abstract.isAbstract = true)
    (hOther : other ∈ schema.types.types)
    (hSub : schema.types.isNameSubtype abstract.name other.name =
      true) :
    schema.possibleTypes abstract ⊆
      schema.possibleTypes other := by
  have hOtherKind :=
    isAbstract_of_isNameSubtype hAbstract hKind hOther hSub
  intro object hPossible
  have hObject : object ∈ schema.types.objects :=
    TypeGraph.mem_objects_iff.2
      (mem_types_of_mem_possibleTypes hPossible)
  rw [mem_possibleTypes_iff hAbstract hKind hObject] at hPossible
  rw [mem_possibleTypes_iff hOther hOtherKind hObject]
  exact TypeGraph.isNameSubtype_trans hValid hPossible hSub

/- A possible type stands in the list once. -/
theorem FromText.nodup_possibleTypes
    (h : schema.FromText)
    (abstract : NamedType) :
    (schema.possibleTypes abstract).Nodup := by
  unfold possibleTypes
  split
  · refine nodup_implementors ?_ _
    intro object hObject
    have hListed :=
      h.listsOnce _ (TypeGraph.mem_objects_iff.1 hObject)
    exact hListed.nodup _ rfl
  · next union =>
      have hNames : union.members.Nodup :=
        nodup_eraseDups union.listed
      refine hNames.filterMap ?_
      intro name name' object hObject hObject'
      rw [← (object?_eq_some_iff.1 hObject).2,
        ← (object?_eq_some_iff.1 hObject').2]
  · exact .nil

/-
  The notions of a possible type agree. For an object and an
  interface or union of a schema, it is the same that the
  object is listed, that it passes the test, that it is a
  subtype, and that a fragment on the type applies to it.

  The list of an interface is in the order of the graph, that
  of a union in the order of its members, and if schema text
  declares all types, nothing is listed twice. What a subtype
  lists, the type lists as well.
-/
theorem Built.possible_types_agree (h : schema.Built) :
    (∀ abstract ∈ schema.types.types,
      abstract.isAbstract = true →
      ∀ object ∈ schema.types.objects,
      ∀ nullable place place',
        List.TFAE
          [ object ∈ schema.possibleTypes abstract,
            schema.isPossible object abstract = true,
            schema.types.isSubtype
              (.named object.name nullable place)
              (.named abstract.name nullable place') = true,
            schema.fragmentApplies object abstract.name =
              true]) ∧
    (∀ interface,
      .defined (.interface interface) ∈ schema.types.types →
      (schema.possibleTypes
        (.defined (.interface interface))).Pairwise
          fun first second =>
            first = second ∨
              schema.types.Precedes first second) ∧
    (∀ union,
      .defined (.union union) ∈ schema.types.types →
      (schema.possibleTypes (.defined (.union union))).map
        ObjectType.name = union.members) ∧
    (schema.FromText →
      ∀ abstract ∈ schema.types.types,
        (schema.possibleTypes abstract).Nodup) ∧
    ∀ abstract ∈ schema.types.types,
      abstract.isAbstract = true →
      ∀ other ∈ schema.types.types,
      ∀ nullable nullable' place place',
        schema.types.isSubtype
          (.named abstract.name nullable place)
          (.named other.name nullable' place') = true →
        schema.possibleTypes abstract ⊆
          schema.possibleTypes other := by
  refine ⟨?_, ?_, ?_, ?_, ?_⟩
  · intro abstract hAbstract hKind object hObject nullable place
      place'
    have hSubtype :
        schema.types.isSubtype
            (.named object.name nullable place)
            (.named abstract.name nullable place') =
          schema.types.isNameSubtype object.name
            abstract.name := by
      simp [TypeGraph.isSubtype]
    rw [hSubtype, fragmentApplies_eq_isPossible hAbstract hKind]
    tfae_have 1 ↔ 2 := (isPossible_iff hObject).symm
    tfae_have 1 ↔ 3 :=
      mem_possibleTypes_iff hAbstract hKind hObject
    tfae_have 2 ↔ 4 := Iff.rfl
    tfae_finish
  · intro interface _
    exact schema.pairwise_implementors interface.name
  · intro union hUnion
    exact names_of_members (h.closed.types.members union hUnion)
  · intro hText abstract _
    exact hText.nodup_possibleTypes abstract
  · intro abstract hAbstract hKind other hOther nullable
      nullable' place place' hSub
    simp only [TypeGraph.isSubtype, Bool.and_eq_true] at hSub
    exact possibleTypes_subset h.validate_eq_ok hAbstract hKind
      hOther hSub.2

end Schema

------------------------------------------------------------
-- A Catalogue
------------------------------------------------------------

namespace Catalogue

/- Books are listed as items, and so they are entries. -/
theorem layered_possible_types :
    layered.Built ∧ layered.FromText ∧
      layeredBook ∈
        layered.possibleTypes (.defined (.interface layeredItem)) ∧
      layeredBook ∈
        layered.possibleTypes (.defined (.interface entry)) ∧
      layered.isPossible layeredBook
        (.defined (.interface entry)) = true ∧
      layered.types.isSubtype (.ofName "Book" true)
        (.ofName "Entry" true) = true ∧
      layered.fragmentApplies layeredBook "Entry" = true ∧
      (layered.possibleTypes
        (.defined (.interface entry))).Nodup := by
  have hItem :
      .defined (.interface layeredItem) ∈ layered.types.types := by
    simp [layered]
  have hEntry :
      .defined (.interface entry) ∈ layered.types.types := by
    simp [layered]
  have hBook : layeredBook ∈ layered.types.objects := by
    refine TypeGraph.mem_objects_iff.2 ?_
    simp [layered]
  have hSub : layered.types.isSubtype (.ofName "Item" true)
      (.ofName "Entry" true) = true := by
    with_unfolding_all rfl
  have hListed : layered.possibleTypes
      (.defined (.interface layeredItem)) = [layeredBook] := by
    with_unfolding_all rfl
  rcases Schema.Built.possible_types_agree layered_fromText.built
    with ⟨hAgree, -, -, hOnce, hSubset⟩
  have hAsItem : layeredBook ∈ layered.possibleTypes
      (.defined (.interface layeredItem)) := by
    rw [hListed]
    exact List.mem_singleton_self _
  have hAsEntry :=
    hSubset _ hItem rfl _ hEntry true true _ _ hSub hAsItem
  have hNotions :=
    hAgree _ hEntry rfl _ hBook true .programmatic .programmatic
  exact
    ⟨layered_fromText.built, layered_fromText, hAsItem, hAsEntry,
      (hNotions.out 0 1).1 hAsEntry,
      (hNotions.out 0 2).1 hAsEntry,
      (hNotions.out 0 3).1 hAsEntry,
      hOnce layered_fromText _ hEntry⟩

end Catalogue

end GraphQL
