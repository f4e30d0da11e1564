import Mathlib.Data.List.Perm.Basic
import GraphQL.Json.Basic

/-
  JSON values up to the order of members and the form of
  numbers.

  Two values are alike if one becomes the other when members of
  objects are put in another order, at any depth, and numbers
  are replaced by numbers of the same text.

  Key definitions include:
    * `Json.Proper`: objects without repeated members
    * `Json.Alike`, `Json.AlikeMember`

  Main declarations:
    * `Json.induct`: induction over the parts of a value
    * `Json.alike_object_iff`
-/

------------------------------------------------------------
-- Induction
------------------------------------------------------------

namespace GraphQL

namespace Json

/-
  What atoms have, and containers have if all their parts have
  it, holds of every value.
-/
@[elab_as_elim]
theorem induct
    {P : Json → Prop}
    (null : P .null)
    (bool : ∀ value, P (.bool value))
    (number : ∀ value, P (.number value))
    (string : ∀ value, P (.string value))
    (array : ∀ items, (∀ item ∈ items, P item) →
      P (.array items))
    (object : ∀ members, (∀ member ∈ members, P member.2) →
      P (.object members))
    (value : Json) : P value := by
  cases value with
  | null => exact null
  | bool value => exact bool value
  | number value => exact number value
  | string value => exact string value
  | array items =>
      apply array
      intro item hItem
      have hLess := List.sizeOf_lt_of_mem hItem
      exact induct null bool number string array object item
  | object members =>
      apply object
      intro member hMember
      have hLess := List.sizeOf_lt_of_mem hMember
      have hValue : sizeOf member.2 < sizeOf member := by
        rcases member with ⟨name, value⟩
        simp only [Prod.mk.sizeOf_spec]
        omega
      exact induct null bool number string array object member.2
termination_by sizeOf value

/- No object has two members of one name, at any depth. -/
inductive Proper : Json → Prop
  | null : Proper .null
  | bool (value : Bool) : Proper (.bool value)
  | number (value : Json.Number) : Proper (.number value)
  | string (value : String) : Proper (.string value)
  | array
      {items : List Json}
      (hItems : ∀ item ∈ items, Proper item) :
      Proper (.array items)
  | object
      {members : List (String × Json)}
      (hNames : (members.map Prod.fst).Nodup)
      (hMembers : ∀ member ∈ members, Proper member.2) :
      Proper (.object members)

------------------------------------------------------------
-- Alike Values
------------------------------------------------------------

/-
  Values that are equal up to the order of members, at every
  level, and the form of numbers that have one text.
-/
inductive Alike : Json → Json → Prop
  | null : Alike .null .null
  | bool (value : Bool) : Alike (.bool value) (.bool value)
  | number
      {value value' : Json.Number}
      (hText : value.text = value'.text) :
      Alike (.number value) (.number value')
  | string (value : String) :
      Alike (.string value) (.string value)
  | array
      {items items' : List Json}
      (hItems : List.Forall₂ Alike items items') :
      Alike (.array items) (.array items')
  | object
      {members arranged members' : List (String × Json)}
      (hPerm : members.Perm arranged)
      (hNames : arranged.map Prod.fst = members'.map Prod.fst)
      (hValues : List.Forall₂ Alike (arranged.map Prod.snd)
        (members'.map Prod.snd)) :
      Alike (.object members) (.object members')

/- Members of one name with such values. -/
structure AlikeMember (member member' : String × Json) :
    Prop where
  name : member.1 = member'.1
  value : Alike member.2 member'.2

variable {members members' : List (String × Json)}

theorem forall₂_alikeMember_iff :
    List.Forall₂ AlikeMember members members' ↔
      members.map Prod.fst = members'.map Prod.fst ∧
        List.Forall₂ Alike (members.map Prod.snd)
          (members'.map Prod.snd) := by
  rw [List.forall₂_map_left_iff, List.forall₂_map_right_iff]
  constructor
  · intro h
    refine ⟨?_, h.imp fun _ _ hMember => hMember.value⟩
    rw [← List.forall₂_eq_eq_eq, List.forall₂_map_left_iff,
      List.forall₂_map_right_iff]
    exact h.imp fun _ _ hMember => hMember.name
  · rintro ⟨hNames, hValues⟩
    rw [← List.forall₂_eq_eq_eq, List.forall₂_map_left_iff,
      List.forall₂_map_right_iff] at hNames
    rw [List.forall₂_iff_zip] at hNames hValues ⊢
    exact ⟨hValues.1, fun hZip =>
      ⟨hNames.2 hZip, hValues.2 hZip⟩⟩

/- Objects are alike if their members are, in some order. -/
theorem alike_object_iff :
    Alike (.object members) (.object members') ↔
      ∃ arranged, members.Perm arranged ∧
        List.Forall₂ AlikeMember arranged members' := by
  constructor
  · rintro ⟨⟩
    next arranged hPerm hNames hValues =>
      exact ⟨arranged, hPerm,
        forall₂_alikeMember_iff.2 ⟨hNames, hValues⟩⟩
  · rintro ⟨arranged, hPerm, hMembers⟩
    have hParts := forall₂_alikeMember_iff.1 hMembers
    exact .object hPerm hParts.1 hParts.2

namespace Alike

@[refl]
theorem refl (value : Json) : Alike value value := by
  induction value using Json.induct with
  | null => exact .null
  | bool value => exact .bool value
  | number value => exact .number rfl
  | string value => exact .string value
  | array items ih =>
      exact .array (List.forall₂_same.2 ih)
  | object members ih =>
      refine alike_object_iff.2 ⟨members, .refl _, ?_⟩
      exact List.forall₂_same.2 fun member hMember =>
        ⟨rfl, ih member hMember⟩

end Alike

end Json

end GraphQL
