import GraphQL.Proofs.Execution.Invariant

/-
  The entries that the groups of an object give.

  Key definitions include:
    * `ObjectType.answers`

  Main declarations:
    * `ExecutionContext.keys_of_groupOutcomes`
    * `ExecutionContext.exists_group_of_entry`
-/

------------------------------------------------------------
-- Entries
------------------------------------------------------------

namespace GraphQL

/- Whether an object has an entry for a group of fields. -/
def ObjectType.answers
    (type : ObjectType)
    (group : FieldGroup) : Bool :=
  group.first.head.name == "__typename" ||
    (type.field? group.first.head.name).isSome

namespace ExecutionContext

variable {self : ExecutionContext} {Value : ValueProperty}
variable {path : List PathSegment} {type : ObjectType}
variable {source : Json}

/- A group gives an entry exactly if its type answers it. -/
theorem entry_of_groupOutcome
    {group : FieldGroup}
    {slot? : Option (String × Json)}
    {errors : List FieldError}
    (h :
      GroupOutcome Value self path type source group
        (some slot?) errors) :
    (type.answers group = false ∧ slot? = none) ∨
      type.answers group = true ∧
        ∃ value, slot? = some (group.key, value) := by
  generalize hOutcome : some slot? = outcome? at h
  cases h with
  | typename hName =>
      cases hOutcome
      exact .inr ⟨by simp [ObjectType.answers, hName], _, rfl⟩
  | unknown hName hField =>
      cases hOutcome
      exact .inl ⟨by simp [ObjectType.answers, hName, hField], rfl⟩
  | field hName hField hValue =>
      rcases Option.map_eq_some_iff.1 hOutcome.symm with
        ⟨value, -, hValue⟩
      exact .inr
        ⟨by simp [ObjectType.answers, hField], value,
          hValue.symm⟩

/- The keys of the entries are those of the answered groups. -/
theorem keys_of_groupOutcomes
    {groups : List FieldGroup}
    {entries : List (Option (String × Json))}
    (h :
      List.Forall₂
        (fun group slot? => ∃ errors,
          GroupOutcome Value self path type source group
            (some slot?) errors)
        groups entries) :
    (entries.filterMap id).map Prod.fst =
      (groups.filter type.answers).map FieldGroup.key := by
  induction h with
  | nil => rfl
  | cons hFirst hRest ih =>
      rcases hFirst with ⟨errors, hOutcome⟩
      rcases entry_of_groupOutcome hOutcome with
        ⟨hAnswers, rfl⟩ | ⟨hAnswers, value, rfl⟩
      · simpa [hAnswers] using ih
      · simpa [hAnswers] using ih

/- Every entry is given by a group. -/
theorem exists_group_of_entry
    {groups : List FieldGroup}
    {entries : List (Option (String × Json))}
    (h :
      List.Forall₂
        (fun group slot? => ∃ errors,
          GroupOutcome Value self path type source group
            (some slot?) errors)
        groups entries)
    {entry : String × Json}
    (hEntry : entry ∈ entries.filterMap id) :
    ∃ group ∈ groups, ∃ errors,
      GroupOutcome Value self path type source group
        (some (some entry)) errors := by
  rcases List.mem_filterMap.1 hEntry with
    ⟨slot?, hSlot, rfl⟩
  exact Results.exists_of_forall₂_of_mem h hSlot

end ExecutionContext

end GraphQL
