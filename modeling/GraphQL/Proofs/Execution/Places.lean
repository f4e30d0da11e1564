import Mathlib.Data.List.Nodup
import GraphQL.Proofs.Execution.Invariant

/-
  Places of a response: where values stand, and where the
  errors of a list or an object stand below it.

  Key definitions include:
    * `Json.at?`: the value at a place
    * `ExecutionContext.ReachesValue`: a value that a resolver
      or an item of a list gives at a place
    * `ExecutionContext.NullAt`: a null that comes from there

  Main declarations:
    * `Completion.Traversed.nodup_paths`
    * `Completion.Traversed.errors_ne_nil`
-/

------------------------------------------------------------
-- Values At Places
------------------------------------------------------------

namespace GraphQL

/- An entry is found by its name if no other one has it. -/
theorem Entries.get?_eq_some_of_mem
    {α : Type}
    {entries : Entries α}
    {key : String}
    {value : α}
    (hNodup : (entries.map Prod.fst).Nodup)
    (h : (key, value) ∈ entries) :
    Entries.get? entries key = some value := by
  induction entries with
  | nil => exact absurd h (by simp)
  | cons entry rest ih =>
      rw [List.map_cons, List.nodup_cons] at hNodup
      rcases List.mem_cons.1 h with rfl | hRest
      · simp [Entries.get?]
      · have hName : entry.1 ≠ key := by
          rintro rfl
          exact hNodup.1 (List.mem_map.2 ⟨_, hRest, rfl⟩)
        simp [Entries.get?, hName, ih hNodup.2 hRest]

/- The value within another one that steps lead to. -/
def Json.at? : Json → List PathSegment → Option Json
| value, [] => some value
| .object members, .key name :: rest =>
    (Entries.get? members name).bind fun value => value.at? rest
| .array items, .index i :: rest =>
    (items[i]?).bind fun value => value.at? rest
| _, _ :: _ => none

namespace Json

@[simp]
theorem at?_nil (value : Json) : value.at? [] = some value := by
  cases value <;> rfl

@[simp]
theorem at?_object
    (members : List (String × Json))
    (name : String)
    (rest : List PathSegment) :
    (object members).at? (.key name :: rest) =
      (Entries.get? members name).bind fun value =>
        value.at? rest :=
  rfl

@[simp]
theorem at?_array
    (items : List Json)
    (i : Nat)
    (rest : List PathSegment) :
    (array items).at? (.index i :: rest) =
      (items[i]?).bind fun value => value.at? rest :=
  rfl

/- Below null there is nothing. -/
theorem eq_nil_of_at?_null
    {place : List PathSegment}
    {value : Json}
    (h : null.at? place = some value) :
    place = [] := by
  cases place with
  | nil => rfl
  | cons segment rest => cases segment <;> cases h

/- Below a string there is nothing. -/
theorem eq_nil_of_at?_string
    {text : String}
    {place : List PathSegment}
    {value : Json}
    (h : (string text).at? place = some value) :
    place = [] := by
  cases place with
  | nil => rfl
  | cons segment rest => cases segment <;> cases h

/- The first step leads to a value, the others go on there. -/
theorem at?_cons
    (value : Json)
    (segment : PathSegment)
    (rest : List PathSegment) :
    value.at? (segment :: rest) =
      (value.at? [segment]).bind fun value => value.at? rest := by
  cases value <;> cases segment <;> simp [at?]

end Json

------------------------------------------------------------
-- Reached Values
------------------------------------------------------------

namespace ExecutionContext

mutual

/- The objects that are reached from selections of a root. -/
inductive ReachesObject
    (self : ExecutionContext)
    (root : ObjectType)
    (selected : List Selection) :
    List PathSegment → ObjectType → Json → List Selection →
      Prop where
  | root :
      ReachesObject self root selected [] root self.rootValue
        selected
  | value {info : ResolveInfo} {group : FieldGroup}
      {name : String} {nullable : Bool}
      {location : SourceLocation} {path : List PathSegment}
      {value : Json} {type : ObjectType} :
      ReachesValue self root selected info group
        (.named name nullable location) path value →
      value.isNull = false →
      self.RuntimeType info name value type →
      ReachesObject self root selected path type value
        (group.nodes.flatMap FieldNode.selections)

/-
  The values that resolvers of reached objects give for fields,
  and the items of those that are lists.
-/
inductive ReachesValue
    (self : ExecutionContext)
    (root : ObjectType)
    (selected : List Selection) :
    ResolveInfo → FieldGroup → TypeRef → List PathSegment →
      Json → Prop where
  | field {path : List PathSegment} {parent : ObjectType}
      {source : Json} {selections : List Selection}
      {group : FieldGroup} {field : OutputField}
      {value : Json} :
      ReachesObject self root selected path parent source
        selections →
      group ∈ self.collect parent selections →
      group.first.head.name ≠ "__typename" →
      parent.field? group.first.head.name = some field →
      self.Yields (path ++ [.key group.key]) parent source field
        group value →
      ReachesValue self root selected
        (self.info (path ++ [.key group.key]) parent field group)
        group field.type (path ++ [.key group.key]) value
  | item {info : ResolveInfo} {group : FieldGroup}
      {inner : TypeRef} {nullable : Bool}
      {location : SourceLocation} {path : List PathSegment}
      {items : List Json} {i : Nat} {value : Json} :
      ReachesValue self root selected info group
        (.list inner nullable location) path (.array items) →
      items[i]? = some value →
      ReachesValue self root selected info group inner
        (path ++ [.index i]) value

end

/-
  A null that is not due to an error: a resolver or a list gave
  it, or it is in what a leaf was serialized to.
-/
inductive NullAt
    (self : ExecutionContext)
    (root : ObjectType)
    (selected : List Selection) :
    List PathSegment → Prop where
  | given {info : ResolveInfo} {group : FieldGroup}
      {type : TypeRef} {place : List PathSegment} :
      ReachesValue self root selected info group type place
        .null →
      NullAt self root selected place
  | leaf {info : ResolveInfo} {group : FieldGroup}
      {name : String} {nullable : Bool}
      {location : SourceLocation} {path : List PathSegment}
      {value result : Json} {type : NamedType}
      {rest : List PathSegment} :
      ReachesValue self root selected info group
        (.named name nullable location) path value →
      value.isNull = false →
      self.schema.lookup name = some type →
      type.isLeaf = true →
      type.serialize value = .ok result →
      result.at? rest = some .null →
      NullAt self root selected (path ++ rest)

end ExecutionContext

------------------------------------------------------------
-- Errors Below Members
------------------------------------------------------------

namespace Completion

variable {α β : Type}
variable {Member : α → Option β → List FieldError → Prop}
variable {members : List α} {values? : Option (List β)}
variable {errors : List FieldError}

/- A list is only given up for an error. -/
theorem Traversed.errors_ne_nil
    (h : Traversed Member members values? errors)
    (hMember : ∀ a own, Member a none own → own ≠ [])
    (hValues : values? = none) : errors ≠ [] := by
  induction h with
  | nil => cases hValues
  | stop hStop => exact hMember _ _ hStop
  | step hNow hRest ih =>
      intro hErrors
      have hNone := Option.map_eq_none_iff.1 hValues
      exact ih hNone (List.append_eq_nil_iff.1 hErrors).2

/- Paths that start differently are different. -/
theorem ne_of_prefix
    {path first second : List PathSegment}
    {a b : PathSegment}
    (hFirst : path ++ [a] <+: first)
    (hSecond : path ++ [b] <+: second)
    (hNe : a ≠ b) : first ≠ second := by
  rintro rfl
  rcases hFirst with ⟨one, hOne⟩
  rcases hSecond with ⟨two, hTwo⟩
  have hSame := hOne.trans hTwo.symm
  simp only [List.append_assoc, List.append_cancel_left_eq,
    List.cons_append, List.nil_append,
    List.cons.injEq] at hSame
  exact hNe hSame.1

/-
  The errors of different members are in different places if
  the members are, and those of one member are.
-/
theorem Traversed.nodup_paths
    {path : List PathSegment}
    {segment : α → PathSegment}
    (h : Traversed Member members values? errors)
    (hSegments : (members.map segment).Nodup)
    (hBelow : ∀ a ∈ members, ∀ value? own,
      Member a value? own →
      ∀ error ∈ own, path ++ [segment a] <+: error.path)
    (hNodup : ∀ a ∈ members, ∀ value? own,
      Member a value? own → (own.map FieldError.path).Nodup) :
    (errors.map FieldError.path).Nodup := by
  induction h with
  | nil => simp
  | stop hStop => exact hNodup _ List.mem_cons_self _ _ hStop
  | @step a b rest bs? own later hNow hRest ih =>
      rw [List.map_cons, List.nodup_cons] at hSegments
      have hLater := ih hSegments.2
        (fun c hc => hBelow c (List.mem_cons_of_mem a hc))
        (fun c hc => hNodup c (List.mem_cons_of_mem a hc))
      rw [List.map_append, List.nodup_append]
      refine
        ⟨hNodup a List.mem_cons_self _ _ hNow, hLater, ?_⟩
      intro first hFirst second hSecond
      rcases List.mem_map.1 hFirst with ⟨error, hError, rfl⟩
      rcases List.mem_map.1 hSecond with ⟨other, hOther, rfl⟩
      rcases hRest.exists_of_mem hOther with
        ⟨c, hc, value?, found, hFound, hMem⟩
      apply ne_of_prefix
        (hBelow a List.mem_cons_self _ _ hNow error hError)
        (hBelow c (List.mem_cons_of_mem a hc) _ _ hFound other
          hMem)
      intro hSame
      exact hSegments.1 (hSame ▸ List.mem_map_of_mem hc)

end Completion

end GraphQL
