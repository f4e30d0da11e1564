import GraphQL.Proofs.Results
import GraphQL.Proofs.Execution.Outcome

/-
  Values up to the order of members, and completions that come
  to such values.

  Two completions agree if they come to the same value up to
  the order of members, or both pass an error on, as far as
  both come to an end. Members that agree one by one may be
  completed in any order: whichever of them passes an error on,
  the whole does.

  Key definitions include:
    * `Json.Reordered`, `Json.ReorderedMembers`
    * `Completion.ComesTo`, `Completion.Agrees`
    * `Completion.Sums`: what a traversal comes to

  Main declarations:
    * `Completion.Agrees.traverse`
    * `Completion.Agrees.traverse_of_perm`
-/

------------------------------------------------------------
-- Values
------------------------------------------------------------

namespace GraphQL

/-
  Values that are equal up to the order of members, at every
  level.
-/
inductive Json.Reordered : Json → Json → Prop where
  | refl (value : Json) : Reordered value value
  | array {items items' : List Json} :
      List.Forall₂ Reordered items items' →
      Reordered (.array items) (.array items')
  | object {members arranged members' : List (String × Json)} :
      arranged.map Prod.fst = members.map Prod.fst →
      List.Forall₂ Reordered (members.map Prod.snd)
        (arranged.map Prod.snd) →
      arranged.Perm members' →
      Reordered (.object members) (.object members')

/- Members of one name with such values. -/
structure Json.ReorderedMember
    (member member' : String × Json) : Prop where
  name : member'.1 = member.1
  value : Json.Reordered member.2 member'.2

/- Such members in any order. -/
def Json.ReorderedMembers
    (members members' : List (String × Json)) : Prop :=
  ∃ arranged, arranged.Perm members' ∧
    List.Forall₂ Json.ReorderedMember members arranged

theorem Json.ReorderedMembers.object
    {members members' : List (String × Json)}
    (h : Json.ReorderedMembers members members') :
    Json.Reordered (.object members) (.object members') := by
  rcases h with ⟨arranged, hPerm, hMembers⟩
  refine .object ?_ ?_ hPerm
  · clear hPerm
    induction hMembers with
    | nil => rfl
    | cons hMember _ ih =>
        rw [List.map_cons, List.map_cons, hMember.name, ih]
  · rw [List.forall₂_map_left_iff, List.forall₂_map_right_iff]
    exact hMembers.imp fun _ _ hMember => hMember.value

------------------------------------------------------------
-- Completions
------------------------------------------------------------

namespace Completion

variable {α β γ δ : Type}

/- A completion ends with a value, or with none. -/
def ComesTo (c : Completion α) (value? : Option α) : Prop :=
  ∃ errors, Gives c value? errors

/- Whatever two completions come to is the same. -/
def Agrees
    (Same : α → β → Prop)
    (first : Completion α)
    (second : Completion β) : Prop :=
  ∀ value? value?', ComesTo first value? →
    ComesTo second value?' → Option.Rel Same value? value?'

namespace Agrees

variable {Same : α → β → Prop}
variable {first : Completion α} {second : Completion β}

theorem done
    {a : α}
    {b : β}
    (h : Same a b) : Agrees Same (done a) (.done b) := by
  rintro value? value?' ⟨errors, hFirst⟩ ⟨errors', hSecond⟩
  rcases (gives_done _ _ _).1 hFirst with ⟨rfl, -⟩
  rcases (gives_done _ _ _).1 hSecond with ⟨rfl, -⟩
  exact .some h

/- Errors that are passed on may be any errors. -/
theorem fail (error error' : FieldError) :
    Agrees Same (fail error) (.fail error') := by
  rintro value? value?' ⟨errors, hFirst⟩ ⟨errors', hSecond⟩
  rcases (gives_fail _ _ _).1 hFirst with ⟨rfl, -⟩
  rcases (gives_fail _ _ _).1 hSecond with ⟨rfl, -⟩
  exact .none

theorem none : Agrees Same none none := by
  rintro value? value?' ⟨errors, hFirst⟩
  exact absurd hFirst (not_gives_none _ _)

theorem noting
    (h : Agrees Same first second)
    (notices notices' : List Notice) :
    Agrees Same (noting notices first)
      (.noting notices' second) := by
  intro value? value?' hFirst hSecond
  simp only [ComesTo, gives_noting] at hFirst hSecond
  exact h value? value?' hFirst hSecond

/- A choice that both make. -/
theorem ite
    {condition : Prop}
    [Decidable condition]
    {other : Completion α}
    {other' : Completion β}
    (h : Agrees Same first second)
    (hOther : Agrees Same other other') :
    Agrees Same (if condition then first else other)
      (if condition then second else other') := by
  split
  · exact h
  · exact hOther

theorem mapValue
    {Last : γ → δ → Prop}
    (h : Agrees Same first second)
    {f : α → γ}
    {g : β → δ}
    (hMap : ∀ a b, Same a b → Last (f a) (g b)) :
    Agrees Last (mapValue f first) (.mapValue g second) := by
  rintro value? value?' ⟨errors, hFirst⟩ ⟨errors', hSecond⟩
  rcases (gives_mapValue _ _ _ _).1 hFirst with
    ⟨before?, hBefore, rfl⟩
  rcases (gives_mapValue _ _ _ _).1 hSecond with
    ⟨before?', hBefore', rfl⟩
  cases h before? before?' ⟨errors, hBefore⟩ ⟨errors', hBefore'⟩
    with
  | none => exact .none
  | some hSame => exact .some (hMap _ _ hSame)

/- A place that admits null takes null in both. -/
theorem nullify
    {first second : Completion Json}
    (h : Agrees Json.Reordered first second)
    (type : TypeRef) :
    Agrees Json.Reordered (nullify type first)
      (.nullify type second) := by
  rintro value? value?' ⟨errors, hFirst⟩ ⟨errors', hSecond⟩
  rcases (gives_nullify _ _ _ _).1 hFirst with
    ⟨before?, hBefore, rfl⟩
  rcases (gives_nullify _ _ _ _).1 hSecond with
    ⟨before?', hBefore', rfl⟩
  cases h before? before?' ⟨errors, hBefore⟩ ⟨errors', hBefore'⟩
    with
  | some hSame => exact .some hSame
  | none =>
      unfold settled
      cases type.nullable with
      | true => exact .some (.refl _)
      | false => exact .none

end Agrees

------------------------------------------------------------
-- Traversals
------------------------------------------------------------

variable {f : α → Completion γ} {g : β → Completion δ}
variable {items : List α} {items' : List β}

/-
  What members that are completed one by one sum up to: the
  values of all of them, or none if some member has none.
-/
def Sums (f : α → Completion γ) (items : List α) :
    Option (List γ) → Prop
| some values =>
    List.Forall₂ (fun a c => ComesTo (f a) (some c)) items values
| none => ∃ a ∈ items, ComesTo (f a) none

theorem sums_of_traversed
    {values? : Option (List γ)}
    {errors : List FieldError}
    (h : Traversed (fun a value? errors =>
      Gives (f a) value? errors) items values? errors) :
    Sums f items values? := by
  induction h with
  | nil => exact .nil
  | stop hStop => exact ⟨_, List.mem_cons_self, _, hStop⟩
  | @step a c rest values? errors later hNow _ ih =>
      cases values? with
      | none =>
          rcases ih with ⟨b, hb, hNone⟩
          exact ⟨b, List.mem_cons_of_mem a hb, hNone⟩
      | some values => exact .cons ⟨_, hNow⟩ ih

theorem sums_of_traverse
    {values? : Option (List γ)}
    (h : ComesTo (traverse f items) values?) :
    Sums f items values? := by
  rcases h with ⟨errors, hGives⟩
  exact sums_of_traversed
    (gives_traverse (fun _ _ _ _ hMember => hMember) hGives)

/- Members in another order sum up to the same values. -/
theorem Sums.perm
    {arranged : List α}
    {values? : Option (List γ)}
    (hPerm : arranged.Perm items)
    (h : Sums f items values?) :
    ∃ arranged?, Sums f arranged arranged? ∧
      Option.Rel List.Perm arranged? values? := by
  cases values? with
  | none =>
      rcases h with ⟨a, ha, hNone⟩
      exact ⟨none, ⟨a, hPerm.symm.subset ha, hNone⟩, .none⟩
  | some values =>
      rcases List.perm_comp_forall₂ hPerm h with
        ⟨moved, hMoved, hValues⟩
      exact ⟨some moved, hMoved, .some hValues⟩

/- Members that sum up to values have a value each. -/
theorem Sums.exists_of_mem
    {values : List γ}
    (h : Sums f items (some values))
    {a : α}
    (ha : a ∈ items) :
    ∃ c, ComesTo (f a) (some c) := by
  rcases Results.exists_of_forall₂_of_mem h.flip ha with
    ⟨c, -, hValue⟩
  exact ⟨c, hValue⟩

/-
  Members that agree sum up to values that do. Where one member
  has no value, none of its partners has one.
-/
theorem Sums.rel
    {Same : γ → δ → Prop}
    (hAgree : List.Forall₂ (fun a b => Agrees Same (f a) (g b))
      items items')
    {values? : Option (List γ)}
    {values?' : Option (List δ)}
    (h : Sums f items values?)
    (h' : Sums g items' values?') :
    Option.Rel (List.Forall₂ Same) values? values?' := by
  cases values? with
  | none =>
      cases values?' with
      | none => exact .none
      | some values' =>
          rcases h with ⟨a, ha, hNone⟩
          rcases Results.exists_of_forall₂_of_mem hAgree.flip ha with
            ⟨b, hb, hPair⟩
          rcases h'.exists_of_mem hb with ⟨c, hSome⟩
          cases hPair _ _ hNone hSome
  | some values =>
      cases values?' with
      | none =>
          rcases h' with ⟨b, hb, hNone⟩
          rcases Results.exists_of_forall₂_of_mem hAgree hb with
            ⟨a, ha, hPair⟩
          rcases h.exists_of_mem ha with ⟨c, hSome⟩
          cases hPair _ _ hSome hNone
      | some values' =>
          refine .some ?_
          induction hAgree generalizing values values' with
          | nil =>
              cases h
              cases h'
              exact .nil
          | cons hPair _ ih =>
              cases h with
              | cons hFirst hRest =>
                  cases h' with
                  | cons hFirst' hRest' =>
                      cases hPair _ _ hFirst hFirst' with
                      | some hSame =>
                          exact .cons hSame (ih _ hRest _ hRest')

/-
  Traversals agree if their members do, even in another order:
  their values are those of the members, in that order.
-/
theorem Agrees.traverse_of_perm
    {Same : γ → δ → Prop}
    {arranged : List β}
    (hPerm : arranged.Perm items')
    (hAgree : List.Forall₂ (fun a b => Agrees Same (f a) (g b))
      items arranged) :
    Agrees
      (fun values values' => ∃ moved, moved.Perm values' ∧
        List.Forall₂ Same values moved)
      (traverse f items) (.traverse g items') := by
  intro values? values?' hFirst hSecond
  rcases (sums_of_traverse hSecond).perm hPerm with
    ⟨arranged?, hArranged, hMoved⟩
  have hSame := Sums.rel hAgree (sums_of_traverse hFirst) hArranged
  cases hSame with
  | none =>
      cases hMoved
      exact .none
  | some hValues =>
      cases hMoved with
      | some hPerm => exact .some ⟨_, hPerm, hValues⟩

/- In the same order, their values are in the same order. -/
theorem Agrees.traverse
    {Same : γ → δ → Prop}
    (hAgree : List.Forall₂ (fun a b => Agrees Same (f a) (g b))
      items items') :
    Agrees (List.Forall₂ Same) (traverse f items)
      (.traverse g items') := by
  intro values? values?' hFirst hSecond
  exact Sums.rel hAgree (sums_of_traverse hFirst)
    (sums_of_traverse hSecond)

end Completion

end GraphQL
