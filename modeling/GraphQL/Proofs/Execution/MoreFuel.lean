import GraphQL.Execution.Request
import GraphQL.Proofs.Execution.Settling

/-
  More fuel.

  Fuel bounds how far coercion and execution go, and has no
  other part in them: what comes to a result with some fuel
  comes to the same result with more.

  Key definitions include:
    * `Fuel.Lasts`, `Coercion.Lasts`

  Main declarations:
    * `Coercion.literal_lasts`, `Coercion.value_lasts`
    * `ExecutionContext.executeSelections_lasts`
    * `Request.execute_of_le`
-/

------------------------------------------------------------
-- Results
------------------------------------------------------------

namespace GraphQL

namespace Fuel

variable {α β : Type}

/- What the one comes to, the other comes to. -/
def Lasts (less more : Option α) : Prop :=
  ∀ result, less = some result → more = some result

namespace Lasts

theorem refl (result? : Option α) : Lasts result? result? :=
  fun _ hResult => hResult

theorem bind
    {less more : Option α}
    {next next' : α → Option β}
    (h : Lasts less more)
    (hNext : ∀ a, Lasts (next a) (next' a)) :
    Lasts (less.bind next) (more.bind next') := by
  intro result hResult
  rcases Option.bind_eq_some_iff.1 hResult with
    ⟨a, hFirst, hLast⟩
  exact Option.bind_eq_some_iff.2
    ⟨a, h a hFirst, hNext a result hLast⟩

theorem map
    {less more : Option α}
    (h : Lasts less more)
    (f : α → β) : Lasts (less.map f) (more.map f) := by
  intro result hResult
  rcases Option.map_eq_some_iff.1 hResult with ⟨a, hA, hMap⟩
  exact Option.map_eq_some_iff.2 ⟨a, h a hA, hMap⟩

theorem mapM
    {f f' : α → Option β}
    (h : ∀ a, Lasts (f a) (f' a))
    (members : List α) :
    Lasts (members.mapM f) (members.mapM f') := by
  induction members with
  | nil => exact .refl _
  | cons a rest ih =>
      rw [List.mapM_cons, List.mapM_cons]
      exact (h a).bind fun b => ih.bind fun bs => .refl _

/- A choice that the fuel has no part in. -/
theorem ite
    {condition : Prop}
    [Decidable condition]
    {less less' more more' : Option α}
    (h : Lasts less more)
    (h' : Lasts less' more') :
    Lasts (if condition then less else less')
      (if condition then more else more') := by
  split
  · exact h
  · exact h'

end Lasts

end Fuel

------------------------------------------------------------
-- Coercions
------------------------------------------------------------

namespace Coercion

variable {ε δ α β : Type}

/- What the one coercion comes to, the other comes to. -/
def Lasts (less more : Coercion ε α) : Prop :=
  Fuel.Lasts less.run more.run

namespace Lasts

variable {less more : Coercion ε α}

theorem refl (c : Coercion ε α) : Lasts c c :=
  Fuel.Lasts.refl _

theorem exhausted (c : Coercion ε α) :
    Lasts Coercion.exhausted c := by
  intro result hResult
  cases hResult

theorem bind
    {next next' : α → Coercion ε β}
    (h : Lasts less more)
    (hNext : ∀ a, Lasts (next a) (next' a)) :
    Lasts (less >>= next) (more >>= next') := by
  refine Fuel.Lasts.bind h fun outcome => ?_
  cases outcome with
  | error cause => exact .refl _
  | ok value => exact hNext value

theorem mapM
    {f f' : α → Coercion ε β}
    (h : ∀ a, Lasts (f a) (f' a))
    (members : List α) :
    Lasts (members.mapM f) (members.mapM f') := by
  induction members with
  | nil => exact .refl _
  | cons a rest ih =>
      rw [List.mapM_cons, List.mapM_cons]
      exact (h a).bind fun b => ih.bind fun bs => .refl _

theorem relabel
    (h : Lasts less more)
    (f : ε → δ) :
    Lasts (Coercion.relabel f less) (Coercion.relabel f more) :=
  Fuel.Lasts.map h _

end Lasts

variable {schema : Schema} {bindings : Entries Json}
variable {fuel more : Nat}

/- The entries of an object, with more fuel. -/
theorem provided_lasts
    {coerce coerce' : TypeRef → α → Coercion InputError Json}
    (h : ∀ ref input, Lasts (coerce ref input)
      (coerce' ref input))
    (type : InputObjectType)
    (entries : Entries α) :
    Lasts (provided coerce type entries)
      (provided coerce' type entries) := by
  refine .mapM (fun entry => ?_) entries
  refine .bind (.refl _) fun field => ?_
  exact (h field.type entry.2).bind fun value => .refl _

/- The fields of an object, with more fuel. -/
theorem completeObject_lasts
    {coerce coerce' : TypeRef → Literal →
      Coercion InputError Json}
    (h : ∀ ref input, Lasts (coerce ref input)
      (coerce' ref input))
    (type : InputObjectType)
    (values : Entries Json) :
    Lasts (completeObject coerce type values)
      (completeObject coerce' type values) := by
  refine .bind (.mapM (fun entry => ?_) _) fun _ => .refl _
  unfold completeField
  split
  · exact .refl _
  · split
    · exact (h _ _).bind fun value => .refl _
    · exact .refl _

/- Literals of a named type take fuel for their entries. -/
theorem literal_named_lasts
    (h : ∀ ref input,
      Lasts (literal schema bindings fuel ref input)
        (literal schema bindings more ref input))
    (name : String)
    (nullable : Bool)
    (location : SourceLocation)
    (input : Literal) :
    Lasts
      (literal schema bindings (fuel + 1)
        (.named name nullable location) input)
      (literal schema bindings (more + 1)
        (.named name nullable location) input) := by
  cases input with
  | object entries =>
      simp only [literal]
      refine .bind (.refl _) fun type => ?_
      split
      · next type =>
          exact (provided_lasts h type entries).bind
            fun values => completeObject_lasts h type values
      · exact .refl _
  | _ => exact .refl _

/- Literals of a list take fuel for their items. -/
theorem literal_list_lasts
    (h : ∀ ref input,
      Lasts (literal schema bindings fuel ref input)
        (literal schema bindings more ref input))
    (inner : TypeRef)
    (nullable : Bool)
    (location : SourceLocation)
    (input : Literal) :
    Lasts
      (literal schema bindings (fuel + 1)
        (.list inner nullable location) input)
      (literal schema bindings (more + 1)
        (.list inner nullable location) input) := by
  cases input with
  | «variable» name => exact .refl _
  | null => exact .refl _
  | list items =>
      exact (Lasts.mapM (h inner) items).bind fun _ => .refl _
  | _ => exact (h inner _).bind fun _ => .refl _

/- What a literal is coerced to does not depend on the fuel. -/
theorem literal_lasts
    (hFuel : fuel ≤ more)
    (ref : TypeRef)
    (input : Literal) :
    Lasts (literal schema bindings fuel ref input)
      (literal schema bindings more ref input) := by
  induction fuel generalizing more ref input with
  | zero => exact .exhausted _
  | succ fuel ih =>
      rcases Nat.exists_eq_add_of_le' hFuel with ⟨rest, rfl⟩
      have hRest := @ih (rest + fuel) (Nat.le_add_left _ _)
      cases ref with
      | named name nullable location =>
          exact literal_named_lasts hRest name nullable location
            input
      | list inner nullable location =>
          exact literal_list_lasts hRest inner nullable location
            input

/- Values of a named type take fuel for their entries. -/
theorem value_named_lasts
    (hFuel : fuel ≤ more)
    (h : ∀ ref input, Lasts (value schema fuel ref input)
      (value schema more ref input))
    (name : String)
    (nullable : Bool)
    (location : SourceLocation)
    (input : Json) :
    Lasts
      (value schema (fuel + 1) (.named name nullable location)
        input)
      (value schema (more + 1) (.named name nullable location)
        input) := by
  cases input with
  | object entries =>
      simp only [value]
      refine .bind (.refl _) fun type => ?_
      split
      · next type =>
          exact (provided_lasts h type entries).bind
            fun values => completeObject_lasts
              (literal_lasts hFuel) type values
      · exact .refl _
  | _ => exact .refl _

/- Values of a list take fuel for their items. -/
theorem value_list_lasts
    (h : ∀ ref input, Lasts (value schema fuel ref input)
      (value schema more ref input))
    (inner : TypeRef)
    (nullable : Bool)
    (location : SourceLocation)
    (input : Json) :
    Lasts
      (value schema (fuel + 1) (.list inner nullable location)
        input)
      (value schema (more + 1) (.list inner nullable location)
        input) := by
  cases input with
  | null => exact .refl _
  | array items =>
      exact (Lasts.mapM (h inner) items).bind fun _ => .refl _
  | _ => exact (h inner _).bind fun _ => .refl _

theorem value_lasts
    (hFuel : fuel ≤ more)
    (ref : TypeRef)
    (input : Json) :
    Lasts (value schema fuel ref input)
      (value schema more ref input) := by
  induction fuel generalizing more ref input with
  | zero => exact .exhausted _
  | succ fuel ih =>
      rcases Nat.exists_eq_add_of_le' hFuel with ⟨rest, rfl⟩
      have hLess := Nat.le_add_left fuel rest
      have hRest := @ih (rest + fuel) hLess
      cases ref with
      | named name nullable location =>
          exact value_named_lasts hLess hRest name nullable
            location input
      | list inner nullable location =>
          exact value_list_lasts hRest inner nullable location
            input

/- Nor do the arguments of a field depend on the fuel. -/
theorem arguments_lasts
    (hFuel : fuel ≤ more)
    (field : OutputField)
    (given : Entries Literal) :
    Lasts (arguments schema bindings fuel field given)
      (arguments schema bindings more field given) := by
  refine .bind (.mapM (fun entry => ?_) _) fun _ => .refl _
  have hLiteral := @literal_lasts schema bindings _ _ hFuel
    entry.2.type
  have hAbsent :
      Lasts
        (absentArgument schema bindings fuel entry.1 entry.2)
        (absentArgument schema bindings more entry.1
          entry.2) := by
    unfold absentArgument
    split
    · exact ((hLiteral _).relabel _).bind fun _ => .refl _
    · exact .refl _
  unfold argument
  split
  · split
    · exact .refl _
    · exact Fuel.Lasts.ite (.refl _) hAbsent
  · exact ((hLiteral _).relabel _).bind fun _ => .refl _
  · exact hAbsent

theorem requestVariable_lasts
    (hFuel : fuel ≤ more)
    (inputs : Entries Json)
    (definition : VariableDefinition) :
    Lasts (requestVariable schema fuel inputs definition)
      (requestVariable schema more inputs definition) := by
  unfold requestVariable
  refine Fuel.Lasts.ite (.refl _) ?_
  split
  · split
    · exact ((literal_lasts hFuel _ _).relabel _).bind
        fun _ => .refl _
    · exact .refl _
  · refine Fuel.Lasts.ite (.refl _) ?_
    exact ((value_lasts hFuel _ _).relabel _).bind
      fun _ => .refl _

/- Nor do the variables of an operation. -/
theorem bindings_lasts
    (hFuel : fuel ≤ more)
    (inputs : Entries Json)
    (definitions : List VariableDefinition) :
    Lasts (Coercion.bindings schema fuel inputs definitions)
      (Coercion.bindings schema more inputs definitions) := by
  refine Lasts.bind ?_ fun _ => .refl _
  refine Fuel.Lasts.map (.mapM (fun definition => ?_) _) _
  exact Fuel.Lasts.bind
    (requestVariable_lasts hFuel inputs definition)
    fun _ => .refl _

end Coercion

------------------------------------------------------------
-- Completions
------------------------------------------------------------

namespace Completion

open Fuel (Lasts)

variable {α β : Type}

theorem lasts_andThen
    {less more : Completion α}
    {next next' : α → Completion β}
    (h : Lasts less more)
    (hNext : ∀ a, Lasts (next a) (next' a)) :
    Lasts (less.andThen next) (more.andThen next') := by
  intro outcome hOutcome
  cases less with
  | none => cases hOutcome
  | some completed =>
      rw [h completed rfl]
      rcases completed with ⟨value?, errors, notices⟩
      cases value? with
      | none => exact hOutcome
      | some value => exact (hNext value).map _ _ hOutcome

theorem lasts_traverse
    {f f' : α → Completion β}
    (h : ∀ a, Lasts (f a) (f' a))
    (members : List α) :
    Lasts (traverse f members) (traverse f' members) := by
  induction members with
  | nil => exact .refl _
  | cons a rest ih =>
      exact lasts_andThen (h a) fun b => ih.map _

end Completion

namespace ExecutionContext

open Fuel (Lasts)

variable {execute execute' : SelectionExecutor} {more : Nat}

/- An object gives what its selections give. -/
theorem completeNamed_lasts
    (self : ExecutionContext)
    (h : ∀ path object value selections,
      Lasts (execute path object value selections)
        (execute' path object value selections))
    (info : ResolveInfo)
    (group : FieldGroup)
    (path : List PathSegment)
    (name : String)
    (value : Json) :
    Lasts (self.completeNamed execute info group path name value)
      (completeNamed { self with fuel := more } execute' info
        group path name value) := by
  have hObject (object : ObjectType) :
      Lasts (completeObject execute group path object value)
        (completeObject execute' group path object value) :=
    (h path object value _).map _
  simp only [completeNamed]
  split
  · exact .refl _
  · exact .refl _
  · next object _ => exact .ite (hObject object) (.refl _)
  · refine .ite (Lasts.map ?_ _) (.refl _)
    split
    · next object _ => exact hObject object
    · exact .refl _

theorem completeValue_lasts
    (self : ExecutionContext)
    (h : ∀ path object value selections,
      Lasts (execute path object value selections)
        (execute' path object value selections))
    (info : ResolveInfo)
    (group : FieldGroup)
    (ref : TypeRef)
    (path : List PathSegment)
    (value : Json) :
    Lasts (self.completeValue execute info group ref path value)
      (completeValue { self with fuel := more } execute' info
        group ref path value) := by
  induction ref generalizing path value with
  | named name nullable location =>
      unfold completeValue
      refine .ite (.refl _) ?_
      exact self.completeNamed_lasts h info group path name value
  | list inner nullable location ih =>
      unfold completeValue
      split
      · exact .refl _
      · next items =>
          refine Lasts.map ?_ _
          refine Completion.lasts_traverse (fun item => ?_) _
          exact (ih _ item.1).map _
      · exact .refl _

/- A field takes fuel for its arguments and for its value. -/
theorem executeField_lasts
    (self : ExecutionContext)
    (hFuel : self.fuel ≤ more)
    (h : ∀ path object value selections,
      Lasts (execute path object value selections)
        (execute' path object value selections))
    (path : List PathSegment)
    (parent : ObjectType)
    (source : Json)
    (field : OutputField)
    (group : FieldGroup) :
    Lasts
      (self.executeField execute path parent source field group)
      (executeField { self with fuel := more } execute' path
        parent source field group) := by
  have hArguments := @Coercion.arguments_lasts self.schema
    self.bindings _ _ hFuel field group.first.head.arguments
  have hInfo : info { self with fuel := more } path parent field
      group = self.info path parent field group := rfl
  have hResolve (info : ResolveInfo) (arguments : Entries Json) :
      resolve { self with fuel := more } info source arguments =
        self.resolve info source arguments := rfl
  simp only [executeField, hInfo, hResolve]
  refine Lasts.map ?_ _
  cases hRun : (Coercion.arguments self.schema self.bindings
      self.fuel field group.first.head.arguments).run with
  | none =>
      intro outcome hOutcome
      cases hOutcome
  | some result =>
      rw [hArguments _ hRun]
      cases result with
      | error error => exact .refl _
      | ok arguments =>
          refine Lasts.map ?_ _
          split
          · exact .refl _
          · exact self.completeValue_lasts h _ group field.type
              path _

theorem executeGroup_lasts
    (self : ExecutionContext)
    (hFuel : self.fuel ≤ more)
    (h : ∀ path object value selections,
      Lasts (execute path object value selections)
        (execute' path object value selections))
    (path : List PathSegment)
    (parent : ObjectType)
    (source : Json)
    (group : FieldGroup) :
    Lasts (self.executeGroup execute path parent source group)
      (executeGroup { self with fuel := more } execute' path
        parent source group) := by
  refine .ite (.refl _) ?_
  split
  · exact .refl _
  · next field _ =>
      exact (self.executeField_lasts hFuel h _ parent source
        field group).map _

/- Selections, by induction on the depth of the one. -/
theorem executeSelections_lasts
    (self : ExecutionContext)
    (hFuel : self.fuel ≤ more)
    {depth deeper : Nat}
    (hDepth : depth ≤ deeper)
    (path : List PathSegment)
    (object : ObjectType)
    (source : Json)
    (selections : List Selection) :
    Lasts
      (self.executeSelections depth path object source selections)
      (executeSelections { self with fuel := more } deeper path
        object source selections) := by
  induction depth generalizing deeper path object source
    selections with
  | zero =>
      intro outcome hOutcome
      cases hOutcome
  | succ depth ih =>
      rcases Nat.exists_eq_add_of_le' hDepth with ⟨rest, rfl⟩
      refine Lasts.map ?_ _
      refine Completion.lasts_traverse (fun group => ?_) _
      exact self.executeGroup_lasts hFuel
        (ih (Nat.le_add_left depth rest)) path object source
        group

end ExecutionContext

------------------------------------------------------------
-- Requests
------------------------------------------------------------

namespace Request

variable {request : Request} {schema : Schema} {hooks : Hooks}
variable {fuel more : Nat} {document : ExecutableDocument}

/- A request that comes to an end has one run. -/
theorem execute_of_le
    {run : Run}
    (hFuel : fuel ≤ more)
    (hRun : request.execute schema hooks fuel document =
      some run) :
    request.execute schema hooks more document = some run := by
  revert run
  change Fuel.Lasts (request.execute schema hooks fuel document)
    (request.execute schema hooks more document)
  unfold execute
  split
  · exact .refl _
  · next operation _ =>
      have hBindings := @Coercion.bindings_lasts schema _ _ hFuel
        request.bindings operation.definitions
      refine Fuel.Lasts.bind hBindings fun outcome => ?_
      split
      · exact .refl _
      · next bindings =>
          split
          · exact .refl _
          · next object _ =>
              let context := request.context schema hooks fuel
                document operation bindings
              exact Fuel.Lasts.bind
                (context.executeSelections_lasts hFuel hFuel []
                  object request.rootValue operation.selections)
                fun _ => .refl _

end Request

end GraphQL
