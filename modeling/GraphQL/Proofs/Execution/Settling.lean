import Mathlib.Data.List.Forall2
import GraphQL.Execution.InputCoercion

/-
  Coercions that need no more than some fuel.

  A coercion settles on a result if every amount of fuel gives
  this result, from some amount on. It ends if it settles on
  some result.

  Key definitions include:
    * `Coercion.Settles`, `Coercion.Ends`
    * `Coercion.provided`: the entries that an object has

  Main declarations:
    * `Coercion.Settles.bind`, `Coercion.Settles.mapM`
    * `Coercion.Ends.bind`, `Coercion.Ends.mapM`
    * `Coercion.literal_object`, `Coercion.value_object`
-/

------------------------------------------------------------
-- Settling
------------------------------------------------------------

namespace GraphQL

namespace Coercion

variable {ε δ α β : Type}

/- From some fuel on, the coercion has this result. -/
def Settles
    (c : Nat → Coercion ε α)
    (result : Except ε α) : Prop :=
  ∃ enough, ∀ fuel, enough ≤ fuel →
    (c fuel).run = some result

/- From some fuel on, the coercion has one result. -/
def Ends (c : Nat → Coercion ε α) : Prop :=
  ∃ result, Settles c result

namespace Settles

variable {c : Nat → Coercion ε α}
variable {next : Nat → α → Coercion ε β}

/- A coercion settles on one result only. -/
theorem eq
    {first second : Except ε α}
    (hFirst : Settles c first)
    (hSecond : Settles c second) : first = second := by
  rcases hFirst with ⟨enough, hFirst⟩
  rcases hSecond with ⟨more, hSecond⟩
  have hBoth := hFirst (max enough more) (Nat.le_max_left _ _)
  rw [hSecond _ (Nat.le_max_right _ _)] at hBoth
  exact (Option.some.inj hBoth).symm

theorem pure (value : α) :
    Settles (fun _ => (Pure.pure value : Coercion ε α))
      (.ok value) :=
  ⟨0, fun _ _ => rfl⟩

theorem throw (cause : ε) :
    Settles
      (fun _ => (MonadExcept.throw cause : Coercion ε α))
      (.error cause) :=
  ⟨0, fun _ _ => rfl⟩

/- One more unit of fuel makes no difference. -/
theorem of_succ
    {result : Except ε α}
    (h : Settles (fun fuel => c (fuel + 1)) result) :
    Settles c result := by
  rcases h with ⟨enough, hEnough⟩
  refine ⟨enough + 1, ?_⟩
  intro fuel hFuel
  rcases Nat.exists_eq_add_of_le' hFuel with ⟨rest, rfl⟩
  exact hEnough (rest + enough) (Nat.le_add_left enough rest)

/- A sequence settles on what its last part settles on. -/
theorem bind
    {value : α}
    {result : Except ε β}
    (hFirst : Settles c (.ok value))
    (hNext : Settles (fun fuel => next fuel value) result) :
    Settles (fun fuel => c fuel >>= next fuel) result := by
  rcases hFirst with ⟨enough, hFirst⟩
  rcases hNext with ⟨more, hNext⟩
  refine ⟨max enough more, ?_⟩
  intro fuel hFuel
  have hValue := hFirst fuel (Nat.max_le.1 hFuel).1
  have hSequence : (c fuel >>= next fuel).run =
      (c fuel).run.bind (ExceptT.bindCont (next fuel)) := rfl
  rw [hSequence, hValue]
  exact hNext fuel (Nat.max_le.1 hFuel).2

/- A sequence settles on the cause its first part refuses. -/
theorem bind_error
    {cause : ε}
    (hFirst : Settles c (.error cause)) :
    Settles (fun fuel => c fuel >>= next fuel)
      (.error cause) := by
  rcases hFirst with ⟨enough, hFirst⟩
  refine ⟨enough, ?_⟩
  intro fuel hFuel
  have hSequence : (c fuel >>= next fuel).run =
      (c fuel).run.bind (ExceptT.bindCont (next fuel)) := rfl
  rw [hSequence, hFirst fuel hFuel]
  rfl

/- Members settle one after another. -/
theorem mapM
    {f : Nat → α → Coercion ε β}
    {members : List α}
    {values : List β}
    (h : List.Forall₂
      (fun a value => Settles (fun fuel => f fuel a) (.ok value))
      members values) :
    Settles (fun fuel => members.mapM (f fuel))
      (.ok values) := by
  induction h with
  | nil => exact .pure []
  | @cons a value rest values hFirst _ ih =>
      simp only [List.mapM_cons]
      exact hFirst.bind (ih.bind (.pure (value :: values)))

/- Another cause may be given. -/
theorem relabel
    {result : Except ε α}
    (h : Settles c result)
    (f : ε → δ) :
    Settles (fun fuel => Coercion.relabel f (c fuel))
      (result.mapError f) := by
  rcases h with ⟨enough, hEnough⟩
  refine ⟨enough, ?_⟩
  intro fuel hFuel
  have hRun : (Coercion.relabel f (c fuel)).run =
      (c fuel).run.map fun result => result.mapError f := rfl
  rw [hRun, hEnough fuel hFuel]
  rfl

end Settles

------------------------------------------------------------
-- Ends
------------------------------------------------------------

namespace Ends

variable {c : Nat → Coercion ε α}
variable {next : Nat → α → Coercion ε β}

theorem pure (value : α) :
    Ends (fun _ => (Pure.pure value : Coercion ε α)) :=
  ⟨_, Settles.pure value⟩

theorem throw (cause : ε) :
    Ends (fun _ =>
      (MonadExcept.throw cause : Coercion ε α)) :=
  ⟨_, Settles.throw cause⟩

/- One more unit of fuel makes no difference. -/
theorem of_succ (h : Ends fun fuel => c (fuel + 1)) :
    Ends c := by
  rcases h with ⟨result, hResult⟩
  exact ⟨result, hResult.of_succ⟩

/- A sequence ends if each of its parts does. -/
theorem bind
    (hFirst : Ends c)
    (hNext : ∀ value, Settles c (.ok value) →
      Ends fun fuel => next fuel value) :
    Ends fun fuel => c fuel >>= next fuel := by
  rcases hFirst with ⟨result, hResult⟩
  cases result with
  | error cause => exact ⟨_, hResult.bind_error⟩
  | ok value =>
      rcases hNext value hResult with ⟨last, hLast⟩
      exact ⟨last, hResult.bind hLast⟩

/- Members end one after another. -/
theorem mapM
    {f : Nat → α → Coercion ε β}
    {members : List α}
    (h : ∀ a ∈ members, Ends fun fuel => f fuel a) :
    Ends fun fuel => members.mapM (f fuel) := by
  induction members with
  | nil => exact .pure []
  | cons a rest ih =>
      simp only [List.mapM_cons]
      refine (h a List.mem_cons_self).bind ?_
      intro value _
      refine Ends.bind (ih ?_) ?_
      · intro b hb
        exact h b (List.mem_cons_of_mem a hb)
      · intro values _
        exact .pure (value :: values)

/- Another cause may be given. -/
theorem relabel
    (h : Ends c)
    (f : ε → δ) :
    Ends fun fuel => Coercion.relabel f (c fuel) := by
  rcases h with ⟨result, hResult⟩
  exact ⟨_, hResult.relabel f⟩

/- A choice that the fuel has no part in. -/
theorem ite
    {condition : Prop}
    [Decidable condition]
    {first second : Nat → Coercion ε α}
    (hFirst : condition → Ends first)
    (hSecond : ¬condition → Ends second) :
    Ends fun fuel =>
      if condition then first fuel else second fuel := by
  by_cases h : condition
  · simpa only [if_pos h] using hFirst h
  · simpa only [if_neg h] using hSecond h

end Ends

------------------------------------------------------------
-- Results
------------------------------------------------------------

/- A sequence succeeds exactly if each of its parts does. -/
theorem run_bind_eq_ok_iff
    {first : Coercion ε α}
    {next : α → Coercion ε β}
    {result : β} :
    (first >>= next).run = some (.ok result) ↔
      ∃ value, first.run = some (.ok value) ∧
        (next value).run = some (.ok result) := by
  have hSequence : (first >>= next).run =
      first.run.bind (ExceptT.bindCont next) := rfl
  rw [hSequence]
  cases first.run with
  | none => simp
  | some outcome =>
      cases outcome with
      | error cause => simp [ExceptT.bindCont, Pure.pure]
      | ok value =>
          constructor
          · intro h
            exact ⟨value, rfl, h⟩
          · rintro ⟨_, ⟨⟩, h⟩
            exact h

/- Members succeed together only if each of them does. -/
theorem forall₂_of_mapM
    {f : α → Coercion ε β}
    {members : List α}
    {values : List β}
    (h : (members.mapM f).run = some (.ok values)) :
    List.Forall₂ (fun a value => (f a).run = some (.ok value))
      members values := by
  induction members generalizing values with
  | nil =>
      cases h
      exact .nil
  | cons a rest ih =>
      rw [List.mapM_cons] at h
      rcases run_bind_eq_ok_iff.1 h with ⟨value, hValue, hRest⟩
      rcases run_bind_eq_ok_iff.1 hRest with
        ⟨others, hOthers, hLast⟩
      cases hLast
      exact .cons hValue (ih hOthers)

------------------------------------------------------------
-- Input Objects
------------------------------------------------------------

/- The entries of an object, each coerced to its field. -/
def provided
    (coerce : TypeRef → α → Coercion InputError Json)
    (type : InputObjectType)
    (entries : Entries α) :
    Coercion InputError (Entries Json) :=
  entries.mapM fun entry => do
    let field ← inputField type entry.1
    let value ← coerce field.type entry.2
    return (entry.1, value)

section

variable {schema : Schema} {name : String}
variable {type : InputObjectType}
variable (hLookup : schema.lookup name =
  some (.defined (.inputObject type)))
variable (nullable : Bool) (location : SourceLocation)

include hLookup

theorem inputType_of_lookup :
    inputType schema name =
      pure (.defined (.inputObject type)) := by
  simp [inputType, hLookup, NamedType.isInput]

/- An object literal has some entries and lacks others. -/
theorem literal_object
    (bindings : Entries Json)
    (fuel : Nat)
    (entries : Entries Literal) :
    literal schema bindings (fuel + 1)
        (.named name nullable location) (.object entries) =
      provided (literal schema bindings fuel) type entries >>=
        completeObject (literal schema bindings fuel) type := by
  simp only [literal, inputType_of_lookup hLookup, pure_bind]
  rfl

/- An object has some entries and lacks others. -/
theorem value_object
    (fuel : Nat)
    (entries : Entries Json) :
    value schema (fuel + 1)
        (.named name nullable location) (.object entries) =
      provided (value schema fuel) type entries >>=
        completeObject (literal schema [] fuel) type := by
  simp only [value, inputType_of_lookup hLookup, pure_bind]
  rfl

end

------------------------------------------------------------
-- Leaves
------------------------------------------------------------

section

variable {schema : Schema} {name : String} {type : NamedType}
variable (hLookup : schema.lookup name = some type)
variable (hLeaf : type.isLeaf = true)
variable (nullable : Bool) (location : SourceLocation)
variable (fuel : Nat)

include hLookup hLeaf

theorem inputType_of_isLeaf :
    inputType schema name = pure type := by
  unfold inputType
  rw [hLookup]
  cases type with
  | builtin scalar => rfl
  | defined type =>
      cases type with
      | enum _ => rfl
      | scalar _ => rfl
      | object _ => cases hLeaf
      | interface _ => cases hLeaf
      | union _ => cases hLeaf
      | inputObject _ => cases hLeaf

/- Leaf types parse literals by themselves. -/
theorem literal_leaf
    (bindings : Entries Json)
    {input : Literal}
    (hInput : input.isNull = false)
    (hVariable : ∀ var, input ≠ .variable var) :
    literal schema bindings (fuel + 1)
        (.named name nullable location) input =
      ofLeaf (type.parseLiteral input bindings) := by
  cases input with
  | «variable» var => exact absurd rfl (hVariable var)
  | null => cases hInput
  | _ =>
      simp only [literal, inputType_of_isLeaf hLookup hLeaf,
        pure_bind]
      split
      · cases hLeaf
      · rfl

/- Leaf types parse values by themselves. -/
theorem value_leaf
    {input : Json}
    (hInput : input.isNull = false) :
    value schema (fuel + 1) (.named name nullable location)
        input =
      ofLeaf (type.parseValue input) := by
  cases input with
  | null => cases hInput
  | _ =>
      simp only [value, inputType_of_isLeaf hLookup hLeaf,
        pure_bind]
      split
      · cases hLeaf
      · rfl

end

end Coercion

end GraphQL
