import GraphQL.Proofs.Execution.Defaults
import GraphQL.Proofs.Execution.Faults
import GraphQL.Proofs.Execution.Inlining
import GraphQL.Proofs.Execution.Visits

/-
  Execution of finite data.

  Without resolvers, the value of a field is a member of the
  value of its object, and so it is smaller. However fragments
  spread each other, execution then ends: fields without end
  would need values without end.

  Key definitions include:
    * `Completion.Ends`
    * `Schema.WithoutResolvers`
    * `ExecutionContext.Plain`

  Main declarations:
    * `ExecutionContext.Plain.executeSelections_ends`
    * `Request.execution_ends`
-/

------------------------------------------------------------
-- Completions That End
------------------------------------------------------------

namespace GraphQL

namespace Completion

variable {α β : Type}

/-
  From some amounts on, of the fuel that coercion takes and of
  the depth to which selections are executed, the completion
  has one outcome.
-/
def Ends (c : Nat → Nat → Completion α) : Prop :=
  ∃ outcome enough, ∀ fuel depth,
    enough ≤ fuel → enough ≤ depth →
      c fuel depth = some outcome

namespace Ends

variable {c c' : Nat → Nat → Completion α}
variable {next : Nat → Nat → α → Completion β}

theorem of_some (outcome : Completed α) :
    Ends fun _ _ => some outcome :=
  ⟨outcome, 0, fun _ _ _ _ => rfl⟩

/- One more unit of depth makes no difference. -/
theorem of_succ (h : Ends fun fuel depth => c fuel (depth + 1)) :
    Ends c := by
  rcases h with ⟨outcome, enough, hEnough⟩
  refine ⟨outcome, enough + 1, ?_⟩
  intro fuel depth hFuel hDepth
  rcases Nat.exists_eq_add_of_le' hDepth with ⟨rest, rfl⟩
  exact hEnough fuel (rest + enough) (Nat.le_of_succ_le hFuel)
    (Nat.le_add_left enough rest)

/- What the completion is with little fuel does not matter. -/
theorem congr
    (h : Ends c')
    (enough : Nat)
    (hSame : ∀ fuel depth, enough ≤ fuel →
      c fuel depth = c' fuel depth) :
    Ends c := by
  rcases h with ⟨outcome, more, hMore⟩
  refine ⟨outcome, max enough more, ?_⟩
  intro fuel depth hFuel hDepth
  rw [Nat.max_le] at hFuel hDepth
  rw [hSame fuel depth hFuel.1]
  exact hMore fuel depth hFuel.2 hDepth.2

/- A choice that neither fuel nor depth has a part in. -/
theorem ite
    {condition : Prop}
    [Decidable condition]
    (hFirst : Ends c)
    (hSecond : Ends c') :
    Ends fun fuel depth =>
      if condition then c fuel depth else c' fuel depth := by
  by_cases h : condition
  · simpa only [if_pos h] using hFirst
  · simpa only [if_neg h] using hSecond

/- Any change of the outcome leaves one outcome. -/
theorem map
    (h : Ends c)
    (f : Completed α → Completed β) :
    Ends fun fuel depth => (c fuel depth).map f := by
  rcases h with ⟨outcome, enough, hEnough⟩
  refine ⟨f outcome, enough, ?_⟩
  intro fuel depth hFuel hDepth
  simp only [hEnough fuel depth hFuel hDepth, Option.map_some]

theorem noting
    (h : Ends c)
    (notices : List Notice) :
    Ends fun fuel depth => noting notices (c fuel depth) :=
  h.map _

/- A sequence ends if each of its parts does. -/
theorem andThen
    (hFirst : Ends c)
    (hNext : ∀ value, Ends fun fuel depth =>
      next fuel depth value) :
    Ends fun fuel depth =>
      (c fuel depth).andThen (next fuel depth) := by
  rcases hFirst with ⟨⟨value?, errors, notices⟩, enough, hFirst⟩
  cases value? with
  | none =>
      refine ⟨⟨none, errors, notices⟩, enough, ?_⟩
      intro fuel depth hFuel hDepth
      simp only [Completion.andThen,
        hFirst fuel depth hFuel hDepth]
  | some value =>
      rcases hNext value with ⟨last, more, hLast⟩
      refine
        ⟨⟨last.value, errors ++ last.errors,
          notices ++ last.notices⟩, max enough more, ?_⟩
      intro fuel depth hFuel hDepth
      rw [Nat.max_le] at hFuel hDepth
      have hValue := hFirst fuel depth hFuel.1 hDepth.1
      have hRest := hLast fuel depth hFuel.2 hDepth.2
      simp only at hRest
      simp only [Completion.andThen, hValue, hRest,
        Option.map_some]

/- Members end one after another. -/
theorem traverse
    {f : Nat → Nat → α → Completion β}
    {members : List α}
    (h : ∀ a ∈ members, Ends fun fuel depth => f fuel depth a) :
    Ends fun fuel depth =>
      Completion.traverse (f fuel depth) members := by
  induction members with
  | nil => exact of_some ⟨some [], [], []⟩
  | cons a rest ih =>
      refine (h a List.mem_cons_self).andThen ?_
      intro value
      refine (ih ?_).map _
      intro b hb
      exact h b (List.mem_cons_of_mem a hb)

end Ends

end Completion

------------------------------------------------------------
-- Smaller Values
------------------------------------------------------------

/- A member of a value is smaller than the value. -/
theorem Json.sizeOf_get?
    {source value : Json}
    {name : String}
    (h : source.get? name = some value) :
    sizeOf value < sizeOf source := by
  cases source with
  | object members =>
      have hMem : (name, value) ∈ members :=
        Entries.mem_of_get? h
      have hLess := List.sizeOf_lt_of_mem hMem
      simp only [Prod.mk.sizeOf_spec, Json.object.sizeOf_spec]
        at hLess ⊢
      omega
  | _ => cases h

/- An item of an array is smaller than the array. -/
theorem Json.sizeOf_item
    {items : List Json}
    {item : Json × Nat}
    (h : item ∈ items.zipIdx) :
    sizeOf item.1 < sizeOf (Json.array items) := by
  have hMem : item.1 ∈ items := by
    rcases List.mem_zipIdx h with ⟨-, -, hItem⟩
    rw [hItem]
    exact List.getElem_mem _
  have hLess := List.sizeOf_lt_of_mem hMem
  simp only [Json.array.sizeOf_spec]
  omega

------------------------------------------------------------
-- Plain Contexts
------------------------------------------------------------

/- No object type has a resolver, nor has any of its fields. -/
structure Schema.WithoutResolvers (schema : Schema) : Prop where
  types : ∀ object,
    .defined (.object object) ∈ schema.types.types →
    object.shape.resolveField = none
  fields : ∀ object,
    .defined (.object object) ∈ schema.types.types →
    ∀ entry ∈ object.shape.fields, entry.2.resolver = none

namespace ExecutionContext

/- All coercions end, and no field has a resolver. -/
structure Plain (context : ExecutionContext) : Prop where
  coerces : ∀ bindings ref input, Coercion.Ends fun fuel =>
    Coercion.literal context.schema bindings fuel ref input
  types : context.schema.WithoutResolvers
  resolver : context.resolver = none

/- The same with other fuel for coercions. -/
def withFuel (self : ExecutionContext) (fuel : Nat) :
    ExecutionContext :=
  { self with fuel := fuel }

/- Only the arguments of fields spend it. -/
theorem completeValue_withFuel
    (self : ExecutionContext)
    (fuel : Nat)
    (execute : SelectionExecutor)
    (info : ResolveInfo)
    (group : FieldGroup)
    (ref : TypeRef)
    (path : List PathSegment)
    (value : Json) :
    (self.withFuel fuel).completeValue execute info group ref
        path value =
      self.completeValue execute info group ref path value := by
  induction ref generalizing path value with
  | named name nullable location => rfl
  | list inner nullable location ih =>
      simp only [completeValue, ih]

open Completion (Ends)

variable {self : ExecutionContext}
variable {execute : Nat → Nat → SelectionExecutor}

/- The objects of a value have selections that end. -/
def EndsAt
    (self : ExecutionContext)
    (execute : Nat → Nat → SelectionExecutor)
    (value : Json) : Prop :=
  ∀ object,
    .defined (.object object) ∈ self.schema.types.types →
    ∀ path selections, Ends fun fuel depth =>
      execute fuel depth path object value selections

/- A value of a named type ends if its objects do. -/
theorem completeNamed_ends
    {value : Json}
    (h : self.EndsAt execute value)
    (info : ResolveInfo)
    (group : FieldGroup)
    (path : List PathSegment)
    (name : String) :
    Ends fun fuel depth =>
      self.completeNamed (execute fuel depth) info group path
        name value := by
  have hObject : ∀ object,
      .defined (.object object) ∈ self.schema.types.types →
      Ends fun fuel depth =>
        completeObject (execute fuel depth) group path object
          value :=
    fun object hMem => (h object hMem _ _).map _
  unfold completeNamed
  split
  · exact .of_some _
  · exact .of_some _
  · next object hLookup =>
      refine .ite ?_ (.of_some _)
      exact hObject object (TypeGraph.mem_of_lookup hLookup)
  · next type hLookup =>
      refine .ite (Ends.map ?_ _) ?_
      · split
        · next object hResolve =>
            exact hObject object
              (Schema.mem_types_of_mem_possibleTypes
                (mem_possibleTypes_of_resolve hResolve))
        · exact .of_some _
      · split <;> exact .of_some _

/-
  A value of a type ends if all smaller values do, as it is
  null or smaller itself.
-/
theorem completeValue_ends
    {size : Nat}
    (h : ∀ value, sizeOf value < size →
      self.EndsAt execute value)
    (info : ResolveInfo)
    (group : FieldGroup)
    (ref : TypeRef)
    (path : List PathSegment)
    (value : Json)
    (hValue : value.isNull = false → sizeOf value < size) :
    Ends fun fuel depth =>
      self.completeValue (execute fuel depth) info group ref path
        value := by
  induction ref generalizing path value with
  | named name nullable location =>
      unfold completeValue
      split
      · split <;> exact .of_some _
      · next hNull =>
          have hSmaller := hValue (by simpa using hNull)
          exact completeNamed_ends (h value hSmaller) info group
            path name
  | list inner nullable location ih =>
      unfold completeValue
      split
      · split <;> exact .of_some _
      · next items =>
          refine Ends.map (Ends.traverse ?_) _
          intro item hItem
          refine Ends.map (ih _ item.1 ?_) _
          intro _
          exact (Json.sizeOf_item hItem).trans (hValue rfl)
      · exact .of_some _

/- A field ends if its arguments and its value do. -/
theorem executeField_ends
    (hLiterals : ∀ ref input, Coercion.Ends fun fuel =>
      Coercion.literal self.schema self.bindings fuel ref input)
    (path : List PathSegment)
    (parent : ObjectType)
    (source : Json)
    (field : OutputField)
    (group : FieldGroup)
    (h : ∀ arguments value,
      (self.resolve (self.info path parent field group) source
          arguments).result = .ok value →
        Ends fun fuel depth =>
          self.completeValue (execute fuel depth)
            (self.info path parent field group) group field.type
            path value) :
    Ends fun fuel depth =>
      (self.withFuel fuel).executeField (execute fuel depth) path
        parent source field group := by
  rcases Coercion.arguments_end_of_literals hLiterals field
      group.first.head.arguments with ⟨result, enough, hArguments⟩
  refine Ends.map ?_ _
  cases result with
  | error error =>
      have hFault : Ends fun _ _ =>
          (fault group path (.argument error) : Completion Json) :=
        .of_some _
      refine hFault.congr enough ?_
      intro fuel depth hFuel
      simp only [withFuel, hArguments fuel hFuel]
  | ok arguments =>
      have hRun : ∀ fuel, enough ≤ fuel →
          (Coercion.arguments (self.withFuel fuel).schema
            (self.withFuel fuel).bindings
            (self.withFuel fuel).fuel field
            group.first.head.arguments).run =
              some (.ok arguments) :=
        hArguments
      let resolution := self.resolve
        (self.info path parent field group) source arguments
      let notices := resolution.events.map Notice.event
      have hResolve : ∀ fuel, (self.withFuel fuel).resolve
          ((self.withFuel fuel).info path parent field group)
          source arguments = resolution :=
        fun _ => rfl
      cases hResult : resolution.result with
      | error message =>
          have hFault : Ends fun _ _ =>
              (fault group path (.resolver message) :
                Completion Json) :=
            .of_some _
          refine (hFault.noting notices).congr enough ?_
          intro fuel depth hFuel
          simp only [hRun fuel hFuel, hResolve, hResult]
          rfl
      | ok value =>
          have hValue := h arguments value hResult
          refine (hValue.noting notices).congr enough ?_
          intro fuel depth hFuel
          simp only [hRun fuel hFuel, hResolve, hResult,
            completeValue_withFuel]
          rfl

/- A group ends if its field does. -/
theorem executeGroup_ends
    (path : List PathSegment)
    (parent : ObjectType)
    (source : Json)
    (group : FieldGroup)
    (h : ∀ name field, parent.field? name = some field →
      ∀ path, Ends fun fuel depth =>
        (self.withFuel fuel).executeField (execute fuel depth)
          path parent source field group) :
    Ends fun fuel depth =>
      (self.withFuel fuel).executeGroup (execute fuel depth) path
        parent source group := by
  simp only [executeGroup]
  split
  · exact .of_some _
  · split
    · exact .of_some _
    · next field hField => exact (h _ field hField _).map _

------------------------------------------------------------
-- Selections That End
------------------------------------------------------------

namespace Plain

variable {object : ObjectType} {source : Json}

/- Fields give members of the value of their object. -/
theorem resolve_eq
    (hPlain : self.Plain)
    (hObject :
      .defined (.object object) ∈ self.schema.types.types)
    {name : String}
    {field : OutputField}
    (hField : object.field? name = some field)
    (path : List PathSegment)
    (group : FieldGroup)
    (arguments : Entries Json) :
    self.resolve (self.info path object field group) source
        arguments =
      member source field := by
  have hOwn : field.resolver = none :=
    hPlain.types.fields object hObject _
      (Entries.mem_of_get? hField)
  have hType := hPlain.types.types object hObject
  simp [resolve, info, hOwn, hType, hPlain.resolver]

/- What a field gives is null or smaller than its object. -/
theorem sizeOf_member
    {field : OutputField}
    {value : Json}
    (h : (member source field).result = .ok value)
    (hNull : value.isNull = false) :
    sizeOf value < sizeOf source := by
  simp only [member, Except.ok.injEq] at h
  cases hMember : source.get? field.name with
  | none =>
      rw [hMember] at h
      subst h
      cases hNull
  | some found =>
      rw [hMember] at h
      subst h
      exact Json.sizeOf_get? hMember

/- A group ends if all smaller values do. -/
theorem executeGroup_ends
    (hPlain : self.Plain)
    (h : ∀ value, sizeOf value < sizeOf source →
      self.EndsAt execute value)
    (hObject :
      .defined (.object object) ∈ self.schema.types.types)
    (path : List PathSegment)
    (group : FieldGroup) :
    Ends fun fuel depth =>
      (self.withFuel fuel).executeGroup (execute fuel depth) path
        object source group := by
  apply ExecutionContext.executeGroup_ends
  intro name field hField path
  apply executeField_ends (hPlain.coerces self.bindings)
  intro arguments value hResult
  rw [hPlain.resolve_eq hObject hField] at hResult
  exact completeValue_ends h _ group field.type path value
    (sizeOf_member hResult)

/-
  The selections of an object end, by induction on the size of
  its value. One unit of depth is spent on each object within
  another.
-/
theorem executeSelections_ends
    (hPlain : self.Plain)
    (source : Json) :
    self.EndsAt
      (fun fuel depth =>
        (self.withFuel fuel).executeSelections depth)
      source := by
  induction hSize : sizeOf source using Nat.strongRecOn
    generalizing source with
  | ind size ih =>
      intro object hObject path selections
      have hCollect : ∀ fuel,
          (self.withFuel fuel).collect object selections =
            self.collect object selections :=
        fun _ => rfl
      apply Ends.of_succ
      simp only [executeSelections, hCollect]
      refine Ends.map (Ends.traverse ?_) _
      intro group _
      refine hPlain.executeGroup_ends ?_ hObject path group
      intro value hSmaller
      exact ih _ (hSize ▸ hSmaller) value rfl

end Plain

end ExecutionContext

------------------------------------------------------------
-- Requests
------------------------------------------------------------

/- Literals end where no field of an input has a default. -/
theorem Coercion.literal_ends_of_no_defaults
    {schema : Schema}
    (h : ∀ field ∈ schema.inputFields, field.default = none)
    (bindings : Entries Json)
    (ref : TypeRef)
    (input : Literal) :
    Ends fun fuel => literal schema bindings fuel ref input := by
  apply literal_ends_of_takes
  intro field hTakes next hDefault
  rw [h field hTakes.mem_inputFields] at hDefault
  cases hDefault

namespace Request

variable {schema : Schema} {request : Request}

/- A request whose selections end has one run. -/
theorem exists_run_of_ends
    (hLiterals : ∀ bindings ref input, Coercion.Ends fun fuel =>
      Coercion.literal schema bindings fuel ref input)
    (hooks : Hooks)
    (document : ExecutableDocument)
    (h : ∀ operation bindings object,
      .defined (.object object) ∈ schema.types.types →
        let context := request.context schema hooks 0 document
          operation bindings
        Completion.Ends fun fuel depth =>
          (context.withFuel fuel).executeSelections depth []
            object request.rootValue operation.selections) :
    ∃ run enough, ∀ fuel, enough ≤ fuel →
      request.execute schema hooks fuel document = some run := by
  unfold execute
  cases request.select document.operations with
  | error error => exact ⟨_, 0, fun _ _ => rfl⟩
  | ok operation =>
      rcases Coercion.bindings_end_of_literals (hLiterals [])
          request.bindings operation.definitions with
        ⟨result, enough, hBindings⟩
      cases result with
      | error errors =>
          refine
            ⟨.refusal
              (errors.map fun error => .invalid error.1 error.2),
              enough, ?_⟩
          intro fuel hFuel
          simp only [hBindings fuel hFuel]
          rfl
      | ok bindings =>
          cases hRoot : rootType schema operation with
          | error error =>
              refine ⟨.refusal [error], enough, ?_⟩
              intro fuel hFuel
              simp only [hBindings fuel hFuel, hRoot]
              rfl
          | ok object =>
              rcases h operation bindings object
                  (mem_types_of_rootType hRoot) with
                ⟨outcome, more, hOutcome⟩
              refine ⟨run operation outcome, max enough more, ?_⟩
              intro fuel hFuel
              rw [Nat.max_le] at hFuel
              have hRun : (request.context schema hooks fuel
                    document operation bindings).executeSelections
                      fuel [] object request.rootValue
                      operation.selections =
                    some outcome :=
                hOutcome fuel fuel hFuel.2 hFuel.2
              simp only [hBindings fuel hFuel.1, hRoot,
                Option.bind_eq_bind, Option.bind_some, hRun]
              rfl

/- A request has one run if nothing has a resolver. -/
theorem exists_run
    (hLiterals : ∀ bindings ref input, Coercion.Ends fun fuel =>
      Coercion.literal schema bindings fuel ref input)
    (hTypes : schema.WithoutResolvers)
    (hRequest : request.resolver = none)
    (hooks : Hooks)
    (document : ExecutableDocument) :
    ∃ run enough, ∀ fuel, enough ≤ fuel →
      request.execute schema hooks fuel document = some run := by
  apply exists_run_of_ends hLiterals
  intro operation bindings object hObject context
  have hPlain : context.Plain := ⟨hLiterals, hTypes, hRequest⟩
  exact hPlain.executeSelections_ends request.rootValue object
    hObject [] operation.selections

/-
  A request ends on finite data, whatever the document and the
  hooks, if no input field has a default and nothing has a
  resolver: from some fuel on, it has one run.

  Nor does collection, for any object, depend on what it would
  do with a fragment that is deeper than there are fragments,
  though fragments may spread themselves.
-/
theorem execution_ends
    (hDefaults : ∀ field ∈ schema.inputFields,
      field.default = none)
    (hTypes : schema.WithoutResolvers)
    (hRequest : request.resolver = none)
    (hooks : Hooks)
    (document : ExecutableDocument) :
    (∃ run enough, ∀ fuel, enough ≤ fuel →
      request.execute schema hooks fuel document = some run) ∧
    ∀ bindings object deeper depth selections,
      document.fragments.length ≤ depth →
      let collector : Collector :=
        ⟨schema, document, bindings, object⟩
      collector.collect selections =
        (collector.collectUntil deeper depth selections
          ⟨[], []⟩).groups := by
  have hLiterals := Coercion.literal_ends_of_no_defaults hDefaults
  refine ⟨exists_run hLiterals hTypes hRequest hooks document, ?_⟩
  intro bindings object deeper depth selections hDepth
  exact Collector.collect_eq_collectUntil _ deeper hDepth
    selections

end Request

------------------------------------------------------------
-- A Catalogue
------------------------------------------------------------

namespace Catalogue

/-
  A fragment that spreads itself, through another fragment and
  within a field, and that fragment.
-/
def looping : ExecutableDocument :=
  [ .operation
      { operation with
        selections := [select "items" [spread "Shown"]] },
    .fragment
      ⟨position, "Shown", "Item", [],
        [ spread "More", select "title" [],
          within "Book" [select "sequel" [spread "Shown"]]]⟩,
    .fragment
      ⟨position, "More", "Item", [],
        [select "__typename" [], spread "Shown"]⟩]

/- The book, its sequel, and no further one. -/
def sequels : List (String × Json) :=
  [("items",
    .array
      [ .object
          [ ("__typename", .string "Book"),
            ("title", .string "A"),
            ("sequel",
              .object
                [ ("__typename", .string "Book"),
                  ("title", .string "B"),
                  ("sequel", .null)])],
        .null,
        .null])]

theorem not_acyclic_looping : ¬looping.Acyclic := by
  intro h
  refine h "Shown" (.single ⟨_, rfl, ?_⟩)
  decide

theorem eq_of_mem_objects
    {object : ObjectType}
    (h : .defined (.object object) ∈ schema.types.types) :
    object = book ∨ object = query := by
  simpa [schema, TypeGraph.builtin] using h

theorem withoutResolvers : schema.WithoutResolvers := by
  constructor
  · intro object hObject
    rcases eq_of_mem_objects hObject with rfl | rfl <;> rfl
  · intro object hObject
    rcases eq_of_mem_objects hObject with rfl | rfl <;>
      simp [book, query, title, sequel, pages, field,
        OutputField.ofName]

/- What is shown comes to an end with the sequels. -/
theorem looping_ends :
    ¬looping.Acyclic ∧
      (∀ field ∈ schema.inputFields, field.default = none) ∧
      schema.WithoutResolvers ∧ request.resolver = none ∧
      (request.execute schema hooks 6 looping).bind
          (fun run => run.response.data) =
        some (.object sequels) ∧
      (∃ run enough, ∀ fuel, enough ≤ fuel →
        request.execute schema hooks fuel looping = some run) ∧
      ∀ bindings object deeper depth selections,
        2 ≤ depth →
        let collector : Collector :=
          ⟨schema, looping, bindings, object⟩
        collector.collect selections =
          (collector.collectUntil deeper depth selections
            ⟨[], []⟩).groups := by
  have hDefaults :
      ∀ field ∈ schema.inputFields, field.default = none := by
    have hNone : schema.inputFields = [] := rfl
    rw [hNone]
    exact nofun
  have hRequest : request.resolver = none := rfl
  have hShown : (request.execute schema hooks 6 looping).bind
      (fun run => run.response.data) =
        some (.object sequels) := by
    with_unfolding_all rfl
  rcases Request.execution_ends hDefaults withoutResolvers
    hRequest hooks looping with ⟨hRun, hCollect⟩
  exact
    ⟨not_acyclic_looping, hDefaults, withoutResolvers, hRequest,
      hShown, hRun, hCollect⟩

end Catalogue

end GraphQL
