import Mathlib.Data.List.Forall2
import GraphQL.Execution.Completion

/-
  What completions give, apart from their notices.

  Main declarations:
    * `Completion.Gives`: the value and errors of a completion
    * `Completion.Traversed`: what completing the members of a
      list in order gives
    * `Completion.gives_traverse`, `Completion.Traversed.forall₂`
-/

------------------------------------------------------------
-- Outcomes
------------------------------------------------------------

namespace GraphQL

namespace Completion

variable {α β : Type}

/- A completion ends with a value, or none, and errors. -/
def Gives
    (c : Completion α)
    (value? : Option α)
    (errors : List FieldError) : Prop :=
  ∃ notices, c = some ⟨value?, errors, notices⟩

/- A completion that ends gives what it ends with. -/
theorem gives_of_eq_some
    {c : Completion α}
    {outcome : Completed α}
    (h : c = some outcome) :
    Gives c outcome.value outcome.errors :=
  ⟨outcome.notices, h⟩

@[simp]
theorem not_gives_none
    (value? : Option α)
    (errors : List FieldError) :
    ¬ Gives (none : Completion α) value? errors := by
  intro hParts
  rcases hParts with ⟨notices, h⟩
  exact absurd h (by simp)

@[simp]
theorem gives_some
    (outcome : Completed α)
    (value? : Option α)
    (errors : List FieldError) :
    Gives (some outcome) value? errors ↔
      value? = outcome.value ∧ errors = outcome.errors := by
  constructor
  · intro hParts
    rcases hParts with ⟨notices, h⟩
    cases h
    exact ⟨rfl, rfl⟩
  · intro hParts
    rcases hParts with ⟨rfl, rfl⟩
    exact gives_of_eq_some rfl

theorem gives_done
    (value : α)
    (value? : Option α)
    (errors : List FieldError) :
    Gives (done value) value? errors ↔
      value? = some value ∧ errors = [] := by
  simp [done]

theorem gives_fail
    (error : FieldError)
    (value? : Option α)
    (errors : List FieldError) :
    Gives (fail error) value? errors ↔
      value? = none ∧ errors = [error] := by
  simp [fail]

/- Notices do not matter. -/
@[simp]
theorem gives_noting
    (notices : List Notice)
    (c : Completion α)
    (value? : Option α)
    (errors : List FieldError) :
    Gives (noting notices c) value? errors ↔
      Gives c value? errors := by
  cases c <;> simp [noting]

theorem gives_mapValue
    (f : α → β)
    (c : Completion α)
    (value? : Option β)
    (errors : List FieldError) :
    Gives (mapValue f c) value? errors ↔
      ∃ before?, Gives c before? errors ∧
        value? = before?.map f := by
  cases c with
  | none => simp [mapValue]
  | some outcome =>
      simp only [mapValue, Option.map_some, gives_some]
      constructor
      · intro hParts
        rcases hParts with ⟨rfl, rfl⟩
        exact ⟨outcome.value, ⟨rfl, rfl⟩, rfl⟩
      · intro hParts
        rcases hParts with ⟨before?, ⟨rfl, rfl⟩, rfl⟩
        exact ⟨rfl, rfl⟩

/- What a place takes: without a value, null if it admits it. -/
def settled (type : TypeRef) (value? : Option Json) :
    Option Json :=
  value?.or (if type.nullable then some .null else none)

/- What is taken was there, or is a null that is admitted. -/
theorem settled_eq_some
    {type : TypeRef}
    {value? : Option Json}
    {value : Json}
    (h : settled type value? = some value) :
    value? = some value ∨
      value? = none ∧ value = .null ∧ type.nullable = true := by
  cases value? with
  | some before => exact .inl h
  | none =>
      cases hType : type.nullable with
      | false => simp [settled, hType] at h
      | true =>
          have hNull : Json.null = value := by
            simpa [settled, hType] using h
          exact .inr ⟨rfl, hNull.symm, rfl⟩

theorem gives_nullify
    (type : TypeRef)
    (c : Completion Json)
    (value? : Option Json)
    (errors : List FieldError) :
    Gives (nullify type c) value? errors ↔
      ∃ before?, Gives c before? errors ∧
        value? = settled type before? := by
  cases c with
  | none => simp [nullify]
  | some outcome =>
      have hNullify :
          nullify type (some outcome) =
            some
              { outcome with
                value := settled type outcome.value } := by
        rcases outcome with ⟨before?, before, notices⟩
        cases before? <;> cases hType : type.nullable <;>
          simp [nullify, settled, hType]
      rw [hNullify, gives_some]
      constructor
      · intro hParts
        rcases hParts with ⟨rfl, rfl⟩
        exact ⟨outcome.value, gives_of_eq_some rfl, rfl⟩
      · intro hParts
        rcases hParts with ⟨before?, hBefore, rfl⟩
        rcases (gives_some _ _ _).1 hBefore with ⟨rfl, rfl⟩
        exact ⟨rfl, rfl⟩

------------------------------------------------------------
-- Traversals
------------------------------------------------------------

/-
  What completing the members of a list in order gives, if a
  member may give what a relation says. The first member
  without a value ends the traversal.
-/
inductive Traversed
    (Member : α → Option β → List FieldError → Prop) :
    List α → Option (List β) → List FieldError → Prop where
  | nil : Traversed Member [] (some []) []
  | stop {a : α} {rest : List α} {errors : List FieldError} :
      Member a none errors →
      Traversed Member (a :: rest) none errors
  | step {a : α} {b : β} {rest : List α}
      {bs? : Option (List β)}
      {errors later : List FieldError} :
      Member a (some b) errors →
      Traversed Member rest bs? later →
      Traversed Member (a :: rest)
        (bs?.map fun bs => b :: bs) (errors ++ later)

/- A traversal of completions is one of what they give. -/
theorem gives_traverse
    {f : α → Completion β}
    {Member : α → Option β → List FieldError → Prop}
    {members : List α}
    {values? : Option (List β)}
    {errors : List FieldError}
    (hMember : ∀ a ∈ members, ∀ value? errors,
      Gives (f a) value? errors → Member a value? errors)
    (h : Gives (traverse f members) values? errors) :
    Traversed Member members values? errors := by
  induction members generalizing values? errors with
  | nil =>
      rcases (gives_done _ _ _).1 h with ⟨rfl, rfl⟩
      exact .nil
  | cons a rest ih =>
      have hFirst := hMember a List.mem_cons_self
      have hRest := fun b hb =>
        hMember b (List.mem_cons_of_mem a hb)
      simp only [traverse] at h
      cases hOutcome : f a with
      | none => simp [hOutcome, andThen] at h
      | some outcome =>
          rcases outcome with ⟨value?, before, notices⟩
          have hGives : Gives (f a) value? before :=
            ⟨notices, hOutcome⟩
          cases value? with
          | none =>
              rw [hOutcome] at h
              rcases (gives_some _ _ _).1 h with ⟨rfl, rfl⟩
              exact .stop (hFirst _ _ hGives)
          | some b =>
              cases hTail : traverse f rest with
              | none => simp [hOutcome, hTail, andThen, mapValue] at h
              | some tail =>
                  simp only [hOutcome, hTail, andThen, mapValue,
                    Option.map_some, gives_some] at h
                  rcases h with ⟨rfl, rfl⟩
                  exact .step (hFirst _ _ hGives)
                    (ih hRest (gives_of_eq_some hTail))

/- What members may give may be said in another way. -/
theorem Traversed.imp
    {Member Other : α → Option β → List FieldError → Prop}
    {members : List α}
    {values? : Option (List β)}
    {errors : List FieldError}
    (h : Traversed Member members values? errors)
    (hOther : ∀ a ∈ members, ∀ value? own,
      Member a value? own → Other a value? own) :
    Traversed Other members values? errors := by
  induction h with
  | nil => exact .nil
  | stop hStop =>
      exact .stop (hOther _ List.mem_cons_self _ _ hStop)
  | @step a b rest bs? own later hNow hRest ih =>
      exact .step (hOther _ List.mem_cons_self _ _ hNow)
        (ih fun c hc => hOther c (List.mem_cons_of_mem a hc))

/- The errors of a traversal are errors of its members. -/
theorem Traversed.exists_of_mem
    {Member : α → Option β → List FieldError → Prop}
    {members : List α}
    {values? : Option (List β)}
    {errors : List FieldError}
    (h : Traversed Member members values? errors)
    {error : FieldError}
    (hError : error ∈ errors) :
    ∃ a ∈ members, ∃ value? own,
      Member a value? own ∧ error ∈ own := by
  induction h with
  | nil => exact absurd hError (by simp)
  | @stop a rest errors hMember =>
      exact ⟨a, List.mem_cons_self, none, errors, hMember, hError⟩
  | @step a b rest bs? errors later hMember hRest ih =>
      rcases List.mem_append.1 hError with hNow | hLater
      · exact ⟨a, List.mem_cons_self, some b, errors, hMember,
          hNow⟩
      · rcases ih hLater with
          ⟨other, hOther, value?, own, hOwn, hMem⟩
        exact ⟨other, List.mem_cons_of_mem a hOther, value?, own,
          hOwn, hMem⟩

/-
  A traversal with values has a part for each member: its value
  and its errors.
-/
theorem Traversed.exists_parts
    {Member : α → Option β → List FieldError → Prop}
    {members : List α}
    {values? : Option (List β)}
    {errors : List FieldError}
    (h : Traversed Member members values? errors)
    {values : List β}
    (hValues : values? = some values) :
    ∃ parts : List (β × List FieldError),
      List.Forall₂
          (fun a part => Member a (some part.1) part.2)
          members parts ∧
        parts.map Prod.fst = values ∧
        parts.flatMap Prod.snd = errors := by
  induction h generalizing values with
  | nil =>
      cases hValues
      exact ⟨[], .nil, rfl, rfl⟩
  | stop hMember => exact absurd hValues (by simp)
  | @step a b rest bs? errors later hMember hRest ih =>
      rcases Option.map_eq_some_iff.1 hValues with
        ⟨bs, hBs, rfl⟩
      rcases ih hBs with ⟨parts, hParts, rfl, rfl⟩
      exact
        ⟨(b, errors) :: parts, .cons hMember hParts, rfl, rfl⟩

/- A traversal with values pairs each member with its own. -/
theorem Traversed.forall₂
    {Member : α → Option β → List FieldError → Prop}
    {members : List α}
    {values? : Option (List β)}
    {errors : List FieldError}
    (h : Traversed Member members values? errors)
    {values : List β}
    (hValues : values? = some values) :
    List.Forall₂ (fun a b => ∃ errors, Member a (some b) errors)
      members values := by
  rcases h.exists_parts hValues with ⟨parts, hParts, rfl, -⟩
  refine List.forall₂_map_right_iff.2 (hParts.imp ?_)
  intro a part hPart
  exact ⟨part.2, hPart⟩

end Completion

end GraphQL
