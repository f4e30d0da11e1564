import Mathlib.Data.List.Induction
import GraphQL.Proofs.Execution.Groups
import GraphQL.Proofs.Execution.Places

/-
  The types that are declared for places of a response.

  A field that is selected from a reached object declares its
  type at its place, and the type of a list that of its items
  below it. A place has one declared type, and one value and
  one object are reached at it at most.

  Key definitions include:
    * `ExecutionContext.Selects`
    * `ExecutionContext.Declares`

  Main declarations:
    * `ExecutionContext.reaches_unique`
    * `ExecutionContext.Declares.unique`
    * `ExecutionContext.Declares.container`
-/

------------------------------------------------------------
-- Rules With One Outcome
------------------------------------------------------------

namespace GraphQL

namespace ExecutionContext

variable {self : ExecutionContext} {root : ObjectType}
variable {selected : List Selection}

/- A resolver gives one value. -/
theorem Yields.unique
    {path : List PathSegment}
    {parent : ObjectType}
    {source : Json}
    {field : OutputField}
    {group : FieldGroup}
    {first second : Json}
    (hFirst : self.Yields path parent source field group first)
    (hSecond : self.Yields path parent source field group
      second) :
    first = second := by
  rcases hFirst with ⟨arguments, hArguments, hFirst⟩
  rcases hSecond with ⟨others, hOthers, hSecond⟩
  rw [Coerces, hArguments] at hOthers
  cases hOthers
  exact Except.ok.inj (hFirst.symm.trans hSecond)

/- A value has one runtime type. -/
theorem RuntimeType.unique
    {info : ResolveInfo}
    {name : String}
    {value : Json}
    {first second : ObjectType}
    (hFirst : self.RuntimeType info name value first)
    (hSecond : self.RuntimeType info name value second) :
    first = second := by
  cases hFirst with
  | object hLookup _ =>
      cases hSecond with
      | object hOther _ =>
          rw [hLookup] at hOther
          cases hOther
          rfl
      | abstract hOther hAbstract _ =>
          rw [hLookup] at hOther
          cases hOther
          cases hAbstract
  | abstract hLookup hAbstract hResolved =>
      cases hSecond with
      | object hOther _ =>
          rw [hLookup] at hOther
          cases hOther
          cases hAbstract
      | abstract hOther _ hResolvedTo =>
          rw [hLookup] at hOther
          cases hOther
          exact Except.ok.inj (hResolved.symm.trans hResolvedTo)

/- Leaf types have no objects. -/
theorem RuntimeType.not_leaf
    {info : ResolveInfo}
    {name : String}
    {value : Json}
    {object : ObjectType}
    (h : self.RuntimeType info name value object)
    {type : NamedType}
    (hLookup : self.schema.lookup name = some type) :
    type.isLeaf = false := by
  cases h with
  | object hObject _ =>
      rw [hLookup] at hObject
      cases hObject
      rfl
  | @abstract found _ hFound hAbstract _ =>
      rw [hLookup] at hFound
      cases hFound
      cases type with
      | builtin scalar => cases scalar <;> cases hAbstract
      | defined type =>
          cases type with
          | interface _ => rfl
          | union _ => rfl
          | _ => cases hAbstract

------------------------------------------------------------
-- Selected Fields
------------------------------------------------------------

/- A group of fields that is selected from a reached object. -/
inductive Selects
    (self : ExecutionContext)
    (root : ObjectType)
    (selected : List Selection)
    (path : List PathSegment)
    (parent : ObjectType)
    (source : Json)
    (group : FieldGroup)
    (field : OutputField) : Prop where
  | intro {selections : List Selection} :
      self.ReachesObject root selected path parent source
        selections →
      group ∈ self.collect parent selections →
      group.first.head.name ≠ "__typename" →
      parent.field? group.first.head.name = some field →
      Selects self root selected path parent source group field

/- No value is reached at the root. -/
theorem ReachesValue.ne_nil
    {info : ResolveInfo}
    {group : FieldGroup}
    {type : TypeRef}
    {path : List PathSegment}
    {value : Json}
    (h : self.ReachesValue root selected info group type path
      value) :
    path ≠ [] := by
  cases h <;> simp

/- An object below the root is that of a value. -/
theorem ReachesObject.of_ne_nil
    {path : List PathSegment}
    {type : ObjectType}
    {source : Json}
    {selections : List Selection}
    (h : self.ReachesObject root selected path type source
      selections)
    (hPath : path ≠ []) :
    ∃ info group name nullable location,
      self.ReachesValue root selected info group
          (.named name nullable location) path source ∧
        self.RuntimeType info name source type := by
  cases h with
  | root => exact absurd rfl hPath
  | value hValue _ hType => exact ⟨_, _, _, _, _, hValue, hType⟩

/- A value at a key is that of a selected field. -/
theorem ReachesValue.of_key
    {info : ResolveInfo}
    {group : FieldGroup}
    {type : TypeRef}
    {path : List PathSegment}
    {key : String}
    {value : Json}
    (h : self.ReachesValue root selected info group type
      (path ++ [.key key]) value) :
    ∃ parent source field,
      self.Selects root selected path parent source group field ∧
        key = group.key ∧ type = field.type ∧
        info = self.info (path ++ [.key group.key]) parent field
          group ∧
        self.Yields (path ++ [.key group.key]) parent source field
          group value := by
  generalize hPlace : path ++ [.key key] = place at h
  cases h with
  | field hReached hGroup hName hField hYields =>
      rcases List.append_singleton_inj.1 hPlace with ⟨rfl, hKey⟩
      exact ⟨_, _, _, .intro hReached hGroup hName hField,
        PathSegment.key.inj hKey, rfl, rfl, hYields⟩
  | item _ _ => cases (List.append_singleton_inj.1 hPlace).2

/- A value at an index is an item of a list. -/
theorem ReachesValue.of_index
    {info : ResolveInfo}
    {group : FieldGroup}
    {type : TypeRef}
    {path : List PathSegment}
    {i : Nat}
    {value : Json}
    (h : self.ReachesValue root selected info group type
      (path ++ [.index i]) value) :
    ∃ nullable location items,
      self.ReachesValue root selected info group
          (.list type nullable location) path (.array items) ∧
        items[i]? = some value := by
  generalize hPlace : path ++ [.index i] = place at h
  cases h with
  | field _ _ _ _ _ =>
      cases (List.append_singleton_inj.1 hPlace).2
  | item hList hItem =>
      rcases List.append_singleton_inj.1 hPlace with ⟨rfl, hIndex⟩
      cases hIndex
      exact ⟨_, _, _, hList, hItem⟩

/- One object is reached at a place at most. -/
def OneObject
    (self : ExecutionContext)
    (root : ObjectType)
    (selected : List Selection)
    (path : List PathSegment) : Prop :=
  ∀ type source selections type' source' selections',
    self.ReachesObject root selected path type source
      selections →
    self.ReachesObject root selected path type' source'
      selections' →
    type = type' ∧ source = source' ∧ selections = selections'

/- One value is reached at a place at most. -/
def OneValue
    (self : ExecutionContext)
    (root : ObjectType)
    (selected : List Selection)
    (path : List PathSegment) : Prop :=
  ∀ info group type value info' group' type' value',
    self.ReachesValue root selected info group type path value →
    self.ReachesValue root selected info' group' type' path
      value' →
    info = info' ∧ group = group' ∧ type = type' ∧
      value = value'

/- An object selects one field for a key at most. -/
theorem OneObject.selects
    {path : List PathSegment}
    (h : self.OneObject root selected path)
    {parent parent' : ObjectType}
    {source source' : Json}
    {group group' : FieldGroup}
    {field field' : OutputField}
    (hFirst : self.Selects root selected path parent source group
      field)
    (hSecond : self.Selects root selected path parent' source'
      group' field')
    (hKey : group.key = group'.key) :
    parent = parent' ∧ source = source' ∧ group = group' ∧
      field = field' := by
  rcases hFirst with ⟨hReached, hGroup, _, hField⟩
  rcases hSecond with ⟨hReached', hGroup', _, hField'⟩
  rcases h _ _ _ _ _ _ hReached hReached' with ⟨rfl, rfl, rfl⟩
  have hSame : group = group' := by
    refine List.inj_on_of_nodup_map ?_ hGroup hGroup' hKey
    exact Collector.nodup_keys_collect _ _
  subst hSame
  rw [hField] at hField'
  cases hField'
  exact ⟨rfl, rfl, rfl, rfl⟩

/- One value has one object: that of its runtime type. -/
theorem OneValue.object
    {path : List PathSegment}
    (h : self.OneValue root selected path)
    (hPath : path ≠ []) : self.OneObject root selected path := by
  intro type source selections type' source' selections' hFirst
    hSecond
  cases hFirst with
  | root => exact absurd rfl hPath
  | value hValue _ hType =>
      cases hSecond with
      | root => exact absurd rfl hPath
      | value hValue' _ hType' =>
          rcases h _ _ _ _ _ _ _ _ hValue hValue' with
            ⟨rfl, rfl, hRef, rfl⟩
          cases hRef
          exact ⟨hType.unique hType', rfl, rfl⟩

/-
  One value and one object are reached at a place at most. A
  place is one step below another, at which this holds.
-/
theorem reaches_unique
    (self : ExecutionContext)
    (root : ObjectType)
    (selected : List Selection)
    (path : List PathSegment) :
    self.OneValue root selected path ∧
      self.OneObject root selected path := by
  induction path using List.reverseRecOn with
  | nil =>
      constructor
      · intro _ _ _ _ _ _ _ _ hFirst _
        exact absurd rfl hFirst.ne_nil
      · intro _ _ _ _ _ _ hFirst hSecond
        cases hFirst with
        | root =>
            cases hSecond with
            | root => exact ⟨rfl, rfl, rfl⟩
            | value hValue _ _ => exact absurd rfl hValue.ne_nil
        | value hValue _ _ => exact absurd rfl hValue.ne_nil
  | append_singleton path segment ih =>
      have hValue : self.OneValue root selected
          (path ++ [segment]) := by
        intro _ _ _ _ _ _ _ _ hFirst hSecond
        cases segment with
        | key key =>
            rcases hFirst.of_key with
              ⟨_, _, _, hSelects, hKey, rfl, rfl, hYields⟩
            rcases hSecond.of_key with
              ⟨_, _, _, hSelects', hKey', rfl, rfl, hYields'⟩
            rcases ih.2.selects hSelects hSelects'
                (hKey.symm.trans hKey') with
              ⟨rfl, rfl, rfl, rfl⟩
            exact ⟨rfl, rfl, rfl, hYields.unique hYields'⟩
        | index i =>
            rcases hFirst.of_index with ⟨_, _, _, hList, hItem⟩
            rcases hSecond.of_index with
              ⟨_, _, _, hList', hItem'⟩
            rcases ih.1 _ _ _ _ _ _ _ _ hList hList' with
              ⟨rfl, rfl, hRef, hItems⟩
            cases hRef
            cases hItems
            rw [hItem] at hItem'
            exact ⟨rfl, rfl, rfl, Option.some.inj hItem'⟩
      exact ⟨hValue, hValue.object (by simp)⟩

------------------------------------------------------------
-- Declared Types
------------------------------------------------------------

/-
  The types declared for places: those of fields selected from
  reached objects, and, below lists, those of their items.
-/
inductive Declares
    (self : ExecutionContext)
    (root : ObjectType)
    (selected : List Selection) :
    List PathSegment → TypeRef → Prop where
  | field {path : List PathSegment} {parent : ObjectType}
      {source : Json} {group : FieldGroup}
      {field : OutputField} :
      self.Selects root selected path parent source group field →
      Declares self root selected (path ++ [.key group.key])
        field.type
  | item {path : List PathSegment} {inner : TypeRef}
      {nullable : Bool} {location : SourceLocation} {i : Nat} :
      Declares self root selected path
        (.list inner nullable location) →
      Declares self root selected (path ++ [.index i]) inner

namespace Declares

variable {path : List PathSegment} {type : TypeRef}

/- No type is declared for the root. -/
theorem ne_nil (h : self.Declares root selected path type) :
    path ≠ [] := by
  cases h <;> simp

theorem of_key
    {key : String}
    (h : self.Declares root selected (path ++ [.key key]) type) :
    ∃ parent source group field,
      self.Selects root selected path parent source group field ∧
        key = group.key ∧ type = field.type := by
  generalize hPlace : path ++ [.key key] = place at h
  cases h with
  | field hSelects =>
      rcases List.append_singleton_inj.1 hPlace with ⟨rfl, hKey⟩
      exact ⟨_, _, _, _, hSelects, PathSegment.key.inj hKey, rfl⟩
  | item _ => cases (List.append_singleton_inj.1 hPlace).2

theorem of_index
    {i : Nat}
    (h : self.Declares root selected (path ++ [.index i]) type) :
    ∃ nullable location,
      self.Declares root selected path
        (.list type nullable location) := by
  generalize hPlace : path ++ [.index i] = place at h
  cases h with
  | field _ => cases (List.append_singleton_inj.1 hPlace).2
  | item hList =>
      rcases List.append_singleton_inj.1 hPlace with ⟨rfl, _⟩
      exact ⟨_, _, hList⟩

/- One type is declared for a place at most. -/
theorem unique
    {other : TypeRef}
    (h : self.Declares root selected path type)
    (hOther : self.Declares root selected path other) :
    type = other := by
  induction path using List.reverseRecOn generalizing type
    other with
  | nil => exact absurd rfl h.ne_nil
  | append_singleton path segment ih =>
      cases segment with
      | key key =>
          rcases h.of_key with
            ⟨_, _, _, _, hSelects, hKey, rfl⟩
          rcases hOther.of_key with
            ⟨_, _, _, _, hSelects', hKey', rfl⟩
          have hOne := (reaches_unique self root selected path).2
          rcases hOne.selects hSelects hSelects'
              (hKey.symm.trans hKey') with
            ⟨_, _, _, rfl⟩
          rfl
      | index i =>
          rcases h.of_index with ⟨_, _, hList⟩
          rcases hOther.of_index with ⟨_, _, hList'⟩
          exact (TypeRef.list.inj (ih hList hList')).1

/- A declared type is that of a value that is reached. -/
theorem of_reachesValue
    {info : ResolveInfo}
    {group : FieldGroup}
    {value : Json}
    (h : self.ReachesValue root selected info group type path
      value) :
    self.Declares root selected path type := by
  induction path using List.reverseRecOn generalizing info group
    type value with
  | nil => exact absurd rfl h.ne_nil
  | append_singleton path segment ih =>
      cases segment with
      | key key =>
          rcases h.of_key with
            ⟨_, _, _, hSelects, rfl, rfl, _, _⟩
          exact .field hSelects
      | index i =>
          rcases h.of_index with ⟨_, _, _, hList, _⟩
          exact .item (ih hList)

/-
  Types are declared below a place only if an object is reached
  there or the type of a list is declared for it.
-/
theorem container
    {rest : List PathSegment}
    (h : self.Declares root selected (path ++ rest) type)
    (hRest : rest ≠ []) :
    (∃ object source selections,
      self.ReachesObject root selected path object source
        selections) ∨
      ∃ inner nullable location,
        self.Declares root selected path
          (.list inner nullable location) := by
  induction rest using List.reverseRecOn generalizing type with
  | nil => exact absurd rfl hRest
  | append_singleton rest segment ih =>
      rw [← List.append_assoc] at h
      cases segment with
      | key key =>
          rcases h.of_key with
            ⟨_, _, _, _, ⟨hReached, _, _, _⟩, _, _⟩
          by_cases hHere : rest = []
          · rw [hHere, List.append_nil] at hReached
            exact .inl ⟨_, _, _, hReached⟩
          · rcases hReached.of_ne_nil (by simp [hHere]) with
              ⟨_, _, _, _, _, hValue, _⟩
            exact ih (of_reachesValue hValue) hHere
      | index i =>
          rcases h.of_index with ⟨_, _, hList⟩
          by_cases hHere : rest = []
          · rw [hHere, List.append_nil] at hList
            exact .inr ⟨_, _, _, hList⟩
          · exact ih hList hHere

end Declares

end ExecutionContext

end GraphQL
