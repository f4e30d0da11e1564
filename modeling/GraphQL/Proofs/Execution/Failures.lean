import GraphQL.Execution.Request
import GraphQL.Proofs.Execution.Invariant

/-
  Resolvers that fail, and resolvers that give null.

  A field is null, or passes an error on, whether its resolver
  fails or gives null. Two executions that differ in nothing
  else thus give the same data. What fails has an error, while
  null may have none, and so the errors of one execution stand
  at some of the places of those of the other.

  Key definitions include:
    * `Hooks.Nulls`
    * `Completed.Eases`: same value, fewer errors
    * `Completion.Eases`

  Main declarations:
    * `ExecutionContext.executeField_eases`
    * `ExecutionContext.executeSelections_eases`
    * `Request.null_for_failure`
-/

------------------------------------------------------------
-- Hooks
------------------------------------------------------------

namespace GraphQL

/- The same result, or null where there was a failure. -/
def Resolution.NulledBy (failed given : Resolution) : Prop :=
  given.result = failed.result ∨
    (∃ message, failed.result = .error message) ∧
      given.result = .ok .null

/-
  The second hooks do what the first ones do, except that some
  resolvers give null that fail with the first ones.
-/
structure Hooks.Nulls (failing nulled : Hooks) : Prop where
  resolve : ∀ hook source arguments info,
    (failing.resolve hook source arguments info).NulledBy
      (nulled.resolve hook source arguments info)
  isTypeOf : nulled.isTypeOf = failing.isTypeOf
  typeName : nulled.typeName = failing.typeName

/- The object type of a value has nothing to do with it. -/
theorem Hooks.Nulls.resolve_eq
    {failing nulled : Hooks}
    (h : failing.Nulls nulled)
    (schema : Schema)
    (type : NamedType)
    (value : Json)
    (info : ResolveInfo) :
    AbstractType.resolve schema nulled type value info =
      AbstractType.resolve schema failing type value info := by
  simp only [AbstractType.resolve, AbstractType.resolveWith,
    AbstractType.scan, h.isTypeOf, h.typeName]

------------------------------------------------------------
-- Completions
------------------------------------------------------------

/-
  The same value, and errors at some of the same places in the
  same order.
-/
structure Completed.Eases
    {α : Type}
    (first second : Completed α) : Prop where
  value : second.value = first.value
  paths : (second.errors.map FieldError.path).Sublist
    (first.errors.map FieldError.path)

namespace Completion

variable {α β : Type}

/- Both run out of fuel, or the second eases the first. -/
def Eases (first second : Completion α) : Prop :=
  Option.Rel Completed.Eases first second

namespace Eases

variable {first second : Completion α}

theorem refl (c : Completion α) : Eases c c := by
  cases c with
  | none => exact .none
  | some c => exact .some ⟨rfl, .refl _⟩

/- A choice that both make. -/
theorem ite
    {condition : Prop}
    [Decidable condition]
    {other other' : Completion α}
    (h : Eases first second)
    (hOther : Eases other other') :
    Eases (if condition then first else other)
      (if condition then second else other') := by
  split
  · exact h
  · exact hOther

/- What is noted makes no difference. -/
theorem noting
    (h : Eases first second)
    (notices notices' : List Notice) :
    Eases (noting notices first) (.noting notices' second) := by
  cases h with
  | none => exact .none
  | some h => exact .some ⟨h.value, h.paths⟩

theorem mapValue
    (h : Eases first second)
    (f : α → β) :
    Eases (mapValue f first) (.mapValue f second) := by
  cases h with
  | none => exact .none
  | some h => exact .some ⟨by simp [h.value], h.paths⟩

/- What ends an error ends it in both. -/
theorem nullify
    {first second : Completion Json}
    (h : Eases first second)
    (type : TypeRef) :
    Eases (nullify type first) (.nullify type second) := by
  cases h with
  | none => exact .none
  | @some completed completed' h =>
      rcases completed with ⟨value?, errors, notices⟩
      rcases completed' with ⟨value?', errors', notices'⟩
      cases h.value
      refine .some ?_
      cases value? with
      | some value => exact h
      | none =>
          simp only
          split
          · exact ⟨rfl, h.paths⟩
          · exact h

/- Both go on with the same value, or neither does. -/
theorem andThen
    {next next' : α → Completion β}
    (h : Eases first second)
    (hNext : ∀ value, Eases (next value) (next' value)) :
    Eases (first.andThen next) (second.andThen next') := by
  cases h with
  | none => exact .none
  | @some completed completed' h =>
      rcases completed with ⟨value?, errors, notices⟩
      rcases completed' with ⟨value?', errors', notices'⟩
      cases h.value
      cases value? with
      | none => exact .some ⟨rfl, h.paths⟩
      | some value =>
          have hLast := hNext value
          simp only [Completion.andThen]
          generalize next value = last at hLast ⊢
          generalize next' value = last' at hLast ⊢
          cases hLast with
          | none => exact .none
          | some hLast =>
              refine .some ⟨hLast.value, ?_⟩
              simp only [List.map_append]
              exact h.paths.append hLast.paths

/- Members are eased one after another. -/
theorem traverse
    {f f' : α → Completion β}
    (h : ∀ a, Eases (f a) (f' a))
    (members : List α) :
    Eases (traverse f members) (.traverse f' members) := by
  induction members with
  | nil => exact refl _
  | cons a rest ih =>
      exact (h a).andThen fun b => ih.mapValue fun bs => b :: bs

end Eases

end Completion

------------------------------------------------------------
-- Execution
------------------------------------------------------------

namespace ExecutionContext

open Completion (Eases)

variable (self : ExecutionContext) {nulled : Hooks}
variable {execute execute' : SelectionExecutor}

/- Null is a value where null is admitted, else an error. -/
theorem completeValue_null
    (info : ResolveInfo)
    (group : FieldGroup)
    (ref : TypeRef)
    (path : List PathSegment) :
    self.completeValue execute info group ref path .null =
      if ref.nullable then
        .done .null
      else
        fault group path
          (.null info.parent.name info.field.name) := by
  cases ref with
  | named name nullable location => rfl
  | list inner nullable location => rfl

/- A field that fails becomes what one that gives null is. -/
theorem failure_eases
    (info : ResolveInfo)
    (group : FieldGroup)
    (ref : TypeRef)
    (path : List PathSegment)
    (message : String)
    (notices notices' : List Notice) :
    Eases
      (.nullify ref
        (.noting notices (fault group path (.resolver message))))
      (.nullify ref
        (.noting notices'
          (self.completeValue execute info group ref path
            .null))) := by
  rw [completeValue_null]
  cases hNullable : ref.nullable with
  | true =>
      simp only [Completion.nullify, fault, Completion.fail,
        Completion.done, Completion.noting, hNullable, if_true,
        Option.map_some]
      exact .some ⟨rfl, List.nil_sublist _⟩
  | false =>
      simp only [Completion.nullify, fault, Completion.fail,
        Completion.noting, hNullable, Bool.false_eq_true,
        if_false, Option.map_some]
      exact .some ⟨rfl, .refl _⟩

variable (hHooks : self.hooks.Nulls nulled)

include hHooks in
/- No hook is chosen in another way. -/
theorem resolve_nulledBy
    (info : ResolveInfo)
    (source : Json)
    (arguments : Entries Json) :
    (self.resolve info source arguments).NulledBy
      (resolve { self with hooks := nulled } info source
        arguments) := by
  simp only [resolve]
  split
  · exact hHooks.resolve _ source arguments info
  · exact .inl rfl

variable (hExecute : ∀ path type value selections,
  Eases (execute path type value selections)
    (execute' path type value selections))

include hExecute

theorem completeObject_eases
    (group : FieldGroup)
    (path : List PathSegment)
    (type : ObjectType)
    (value : Json) :
    Eases (completeObject execute group path type value)
      (completeObject execute' group path type value) :=
  (hExecute _ _ _ _).mapValue _

include hHooks

/- A value has the same object type, or the same fault. -/
theorem completeNamed_eases
    (info : ResolveInfo)
    (group : FieldGroup)
    (path : List PathSegment)
    (name : String)
    (value : Json) :
    Eases
      (self.completeNamed execute info group path name value)
      (completeNamed { self with hooks := nulled } execute' info
        group path name value) := by
  have hObject := completeObject_eases hExecute group path
  simp only [completeNamed, hHooks.isTypeOf, hHooks.resolve_eq]
  split
  · exact .refl _
  · exact .refl _
  · next type _ => exact (hObject type value).ite (.refl _)
  · split
    · refine Eases.noting ?_ _ _
      split
      · next object _ => exact hObject object value
      · exact .refl _
    · exact .refl _

/- A value is completed layer by layer. -/
theorem completeValue_eases
    (info : ResolveInfo)
    (group : FieldGroup)
    (ref : TypeRef)
    (path : List PathSegment)
    (value : Json) :
    Eases
      (self.completeValue execute info group ref path value)
      (completeValue { self with hooks := nulled } execute' info
        group ref path value) := by
  induction ref generalizing path value with
  | named name nullable location =>
      simp only [completeValue]
      split
      · exact .refl _
      · exact self.completeNamed_eases hHooks hExecute info group
          path name value
  | list inner nullable location ih =>
      simp only [completeValue]
      split
      · exact .refl _
      · refine Eases.mapValue (Eases.traverse ?_ _) _
        intro item
        exact (ih _ item.1).nullify inner
      · exact .refl _

/-
  What a resolver gives is completed, and if it fails instead
  of giving null, the type of the field decides alike.
-/
theorem resolution_eases
    {failed given : Resolution}
    (h : failed.NulledBy given)
    (info : ResolveInfo)
    (group : FieldGroup)
    (ref : TypeRef)
    (path : List PathSegment)
    (notices notices' : List Notice) :
    Eases
      (.nullify ref
        (.noting notices
          (match failed.result with
          | .error message =>
              fault group path (.resolver message)
          | .ok value =>
              self.completeValue execute info group ref path
                value)))
      (.nullify ref
        (.noting notices'
          (match given.result with
          | .error message =>
              fault group path (.resolver message)
          | .ok value =>
              completeValue { self with hooks := nulled } execute'
                info group ref path value))) := by
  rcases h with hSame | ⟨⟨message, hFailed⟩, hNull⟩
  · rw [hSame]
    refine (Eases.noting ?_ _ _).nullify ref
    split
    · exact .refl _
    · next value _ =>
        exact self.completeValue_eases hHooks hExecute info group
          ref path value
  · rw [hFailed, hNull]
    exact failure_eases { self with hooks := nulled } info group
      ref path message notices notices'

/- A field is eased, whichever resolver it has. -/
theorem executeField_eases
    (path : List PathSegment)
    (parent : ObjectType)
    (source : Json)
    (field : OutputField)
    (group : FieldGroup) :
    Eases
      (self.executeField execute path parent source field group)
      (executeField { self with hooks := nulled } execute' path
        parent source field group) := by
  simp only [executeField]
  split
  · exact .none
  · exact .refl _
  · next arguments _ =>
      have hResolve := self.resolve_nulledBy hHooks
        (self.info path parent field group) source arguments
      exact self.resolution_eases hHooks hExecute hResolve
        (self.info path parent field group) group field.type path
        _ _

/- So is the entry of a group. -/
theorem executeGroup_eases
    (path : List PathSegment)
    (parent : ObjectType)
    (source : Json)
    (group : FieldGroup) :
    Eases
      (self.executeGroup execute path parent source group)
      (executeGroup { self with hooks := nulled } execute' path
        parent source group) := by
  simp only [executeGroup]
  split
  · exact .refl _
  · split
    · exact .refl _
    · exact (self.executeField_eases hHooks hExecute _ _ _ _
        _).mapValue _

omit hExecute in
/-
  Selections are eased, by induction on the fuel: within the
  fields of an object, those of its values are.
-/
theorem executeSelections_eases
    (fuel : Nat)
    (path : List PathSegment)
    (object : ObjectType)
    (source : Json)
    (selections : List Selection) :
    Eases
      (self.executeSelections fuel path object source selections)
      (executeSelections { self with hooks := nulled } fuel path
        object source selections) := by
  induction fuel generalizing path object source selections with
  | zero => exact .none
  | succ fuel ih =>
      refine Eases.mapValue (Eases.traverse ?_ _) _
      intro group
      exact self.executeGroup_eases hHooks ih path object source
        group

end ExecutionContext

------------------------------------------------------------
-- Requests
------------------------------------------------------------

/-
  The same data, and errors at some of the same places in the
  same order.
-/
structure Response.Eases (first second : Response) : Prop where
  data : second.data = first.data
  paths : (second.errors.map ResponseError.path).Sublist
    (first.errors.map ResponseError.path)

namespace Request

/- What is eased is reported as such. -/
theorem run_eases
    {first second : Completed (List (String × Json))}
    (h : first.Eases second)
    (operation : Operation) :
    (run operation first).response.Eases
      (run operation second).response := by
  have hPaths : ∀ errors : List FieldError,
      (errors.map FieldError.report).map ResponseError.path =
        errors.map FieldError.path := by
    intro errors
    rw [List.map_map]
    rfl
  constructor
  · simp only [run, h.value]
  · simp only [run, hPaths]
    exact h.paths

/- Both executions run out of fuel, or both are reported. -/
theorem runs_ease
    {first second : Completion (List (String × Json))}
    (h : first.Eases second)
    (operation : Operation) :
    Option.Rel
      (fun failed given => failed.response.Eases given.response)
      (first.map (run operation))
      (second.map (run operation)) := by
  cases h with
  | none => exact .none
  | some h => exact .some (run_eases h operation)

/-
  Whether resolvers fail or give null, a request has the same
  data, or runs out of fuel in both cases. The errors with null
  stand at some of the places of the errors with failures, in
  the same order.
-/
theorem null_for_failure
    {failing nulled : Hooks}
    (h : failing.Nulls nulled)
    (request : Request)
    (schema : Schema)
    (fuel : Nat)
    (document : ExecutableDocument) :
    Option.Rel
      (fun failed given => failed.response.Eases given.response)
      (request.execute schema failing fuel document)
      (request.execute schema nulled fuel document) := by
  rcases execute_cases request schema fuel document with
    hNone | ⟨errors, hRefusal⟩ | ⟨start, hStart⟩
  · rw [hNone, hNone]
    exact .none
  · rw [hRefusal, hRefusal]
    exact .some ⟨rfl, .refl _⟩
  · rw [hStart, hStart]
    have hOutcome :=
      (start.context failing).executeSelections_eases h fuel []
        start.root request.rootValue start.operation.selections
    exact runs_ease hOutcome start.operation

end Request

------------------------------------------------------------
-- A Catalogue
------------------------------------------------------------

namespace Catalogue

/-
  Hooks that read members, except for sequels, and for titles
  that are not there.
-/
def reading (missing : Resolution) : Hooks where
  resolve _ source _ info :=
    let member? := source.get? info.field.name
    if info.field.name = "sequel" then
      missing
    else if info.field.name = "title" && member?.isNone then
      missing
    else
      .value (member?.getD .null)
  isTypeOf _ _ _ := false
  typeName _ _ _ := none

/- What is missing is refused. -/
def refusing : Hooks :=
  reading (.refuse "Out of print")

/- What is missing is null. -/
def nulling : Hooks :=
  reading (.value .null)

theorem refusing_nulls : refusing.Nulls nulling where
  resolve hook source arguments info := by
    unfold Resolution.NulledBy refusing nulling reading
    simp only
    split
    · exact .inr ⟨⟨_, rfl⟩, rfl⟩
    · split
      · exact .inr ⟨⟨_, rfl⟩, rfl⟩
      · exact .inl rfl
  isTypeOf := rfl
  typeName := rfl

/- A request whose fields are all resolved by a hook. -/
def resolving : Request :=
  { request with resolver := some (.ofKey 0) }

/- The items as far as they are in print. -/
def printed : List (String × Json) :=
  [("items",
    .array
      [ .object
          [ ("__typename", .string "Book"),
            ("title", .string "A"),
            ("pages", .array [.ofInt 7]),
            ("sequel", .null)],
        .null,
        .null])]

/- A field of an item. -/
def itemField (item : Nat) (field : String) :
    List PathSegment :=
  [.key "items", .index item, .key field]

/-
  A sequel that is refused is an error, and one that is null is
  none; a title is an error either way.
-/
theorem printed_either_way :
    refusing.Nulls nulling ∧
      (resolving.execute schema refusing 6 requested).map
        (fun run =>
          (run.response.data,
            run.response.errors.map ResponseError.path)) =
        some
          (some (.object printed),
            [itemField 0 "sequel", itemField 1 "title"]) ∧
      (resolving.execute schema nulling 6 requested).map
        (fun run => run.response.errors.map ResponseError.path) =
        some [itemField 1 "title"] ∧
      Option.Rel
        (fun failed given =>
          failed.response.Eases given.response)
        (resolving.execute schema refusing 6 requested)
        (resolving.execute schema nulling 6 requested) := by
  refine ⟨refusing_nulls, ?_, ?_, ?_⟩
  · with_unfolding_all rfl
  · with_unfolding_all rfl
  · exact Request.null_for_failure refusing_nulls resolving
      schema 6 requested

end Catalogue

end GraphQL
