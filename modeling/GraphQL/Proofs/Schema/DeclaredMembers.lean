import GraphQL.Proofs.Schema.Additions

/-
  Members of types as definitions declare them.

  A list of definitions is read exactly if each has a name that
  will do: fields and input fields have distinct names, and no
  name is reserved. Arguments may share a name.

  Key definitions include:
    * `Declared.named`, `Declared.Defines`

  Main declarations:
    * `Declared.arguments_eq_ok_iff`
    * `Declared.inputFields_eq_ok_iff`
    * `Declared.fields_eq_ok_iff`
-/

------------------------------------------------------------
-- Arguments And Input Fields
------------------------------------------------------------

namespace GraphQL

namespace Declared

variable {type field : String} {location : SourceLocation}

/- An argument or input field by its name. -/
def named
    (location : SourceLocation)
    (definition : InputValueDefinition) :
    String × InputValue :=
  (definition.name,
    inputValue (location.moved definition.position) definition)

/- Arguments are stored in turn unless a name is reserved. -/
theorem arguments_eq_ok_iff
    {definitions : List InputValueDefinition}
    {result : Entries InputValue} :
    arguments type field location definitions = .ok result ↔
      (∀ definition ∈ definitions,
          Name.isReserved definition.name = false) ∧
        result =
          Entries.ofList (definitions.map (named location)) := by
  have hFold : ∀ {done : Entries InputValue},
      definitions.foldlM (argument type field location) done =
          .ok result ↔
        (∀ definition ∈ definitions,
            Name.isReserved definition.name = false) ∧
          result =
            done.insertAll (definitions.map (named location)) := by
    induction definitions with
    | nil =>
        intro done
        constructor
        · rintro ⟨⟩
          exact ⟨by simp, rfl⟩
        · rintro ⟨-, rfl⟩
          rfl
    | cons definition rest ih =>
        intro done
        rw [List.foldlM_cons]
        simp only [Results.bind_eq_ok_iff, ih,
          List.forall_mem_cons, argument]
        cases hName : Name.isReserved definition.name with
        | true => simp
        | false =>
            simp only [Bool.false_eq_true, if_false,
              Except.ok.injEq, exists_eq_left', true_and]
            exact Iff.rfl
  exact hFold

/- Input fields are read if their names are new, not reserved. -/
theorem inputFields_eq_ok_iff
    {definitions : List InputValueDefinition}
    {result : Entries InputValue} :
    inputFields type location definitions = .ok result ↔
      (definitions.map InputValueDefinition.name).Nodup ∧
        (∀ definition ∈ definitions,
          Name.isReserved definition.name = false) ∧
        result = definitions.map (named location) := by
  have hStep : ∀ (done : Entries InputValue) definition next,
      inputField type location done definition = .ok next ↔
        definition.name ∉ done.map Prod.fst ∧
          Name.isReserved definition.name = false ∧
          next = done ++ [named location definition] := by
    intro done definition next
    simp only [inputField]
    cases Name.isReserved definition.name with
    | true => simp
    | false =>
        rcases new_or_known done definition.name with
          ⟨hNew, hNone⟩ | ⟨hMem, first, hFound⟩
        · simp only [hNone, insert_of_not_mem hNew,
            Bool.false_eq_true, if_false, Except.ok.injEq,
            true_and]
          exact eq_comm.trans (and_iff_right hNew).symm
        · simp only [hFound, Bool.false_eq_true, if_false]
          exact iff_of_false nofun fun hParts => hParts.1 hMem
  have hFold := foldlM_append_eq_ok_iff Prod.fst
    InputValueDefinition.name (named location) _
    (fun _ => rfl) hStep definitions [] result
  exact hFold.trans (and_congr_left fun _ => Fresh.nil_iff)

------------------------------------------------------------
-- Fields
------------------------------------------------------------

/- A field as it is defined, with its arguments. -/
def Defines
    (type : String)
    (location : SourceLocation)
    (definition : FieldDefinition)
    (entry : String × OutputField) : Prop :=
  ∃ given,
    arguments type definition.name location
        definition.arguments = .ok given ∧
      entry = (definition.name,
        outputField (location.moved definition.position)
          definition given)

/- A field is stored last if its name is new, not reserved. -/
theorem field_eq_ok_iff
    {done next : Entries OutputField}
    {definition : FieldDefinition} :
    Declared.field type location done definition = .ok next ↔
      definition.name ∉ done.names ∧
        ∃ entry,
          (Name.isReserved definition.name = false ∧
            Defines type location definition entry) ∧
          next = done ++ [entry] := by
  simp only [Declared.field]
  cases Name.isReserved definition.name with
  | true => simp
  | false =>
      rcases new_or_known done definition.name with
        ⟨hNew, hNone⟩ | ⟨hMem, first, hFound⟩
      · simp only [hNone, insert_of_not_mem hNew,
          Bool.false_eq_true, if_false, Results.bind_eq_ok_iff,
          Except.ok.injEq, true_and]
        constructor
        · rintro ⟨given, hGiven, rfl⟩
          exact ⟨hNew, _, ⟨given, hGiven, rfl⟩, rfl⟩
        · rintro ⟨-, _, ⟨given, hGiven, rfl⟩, rfl⟩
          exact ⟨given, hGiven, rfl⟩
      · simp only [hFound, Bool.false_eq_true, if_false]
        exact iff_of_false nofun fun hParts => hParts.1 hMem

/- Fields are stored if their names are new, not reserved. -/
theorem fields_eq_ok_iff
    {definitions : List FieldDefinition}
    {result : Entries OutputField} :
    fields type location definitions = .ok result ↔
      (definitions.map FieldDefinition.name).Nodup ∧
        (∀ definition ∈ definitions,
          Name.isReserved definition.name = false) ∧
        List.Forall₂ (Defines type location) definitions
          result := by
  have hName : ∀ definition entry,
      (Name.isReserved definition.name = false ∧
          Defines type location definition entry) →
        Prod.fst entry = definition.name := by
    rintro definition _ ⟨-, given, -, rfl⟩
    rfl
  have hFold := foldlM_adds_eq_ok_iff Prod.fst
    FieldDefinition.name hName (fun _ _ _ => field_eq_ok_iff)
    definitions [] result
  simp only [List.forall₂_and_left, List.nil_append,
    exists_eq_right'] at hFold
  exact hFold.trans (and_congr_left fun _ => Fresh.nil_iff)

end Declared

end GraphQL
