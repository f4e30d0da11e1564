import GraphQL.Execution.AbstractType
import GraphQL.Proofs.Schema.PossibleTypes

/-
  How the object type of a value is decided.

  A hook that names a type decides alone. Where there is no
  hook, the name that the value carries decides, if a possible
  type has it. In all other cases the possible types are asked
  in order, and the first that accepts the value is taken. Then,
  and only then, there is a diagnostic.

  Key definitions include:
    * `NamedType.typeHook?`
    * `AbstractType.Inquiry`: one value of an abstract type
    * `AbstractType.Inquiry.unanswered`, `unhooked`
    * `AbstractType.Inquiry.Decided`

  Main declarations:
    * `AbstractType.Inquiry.outcome_eq`
    * `AbstractType.Inquiry.decided`
    * `AbstractType.Inquiry.diagnostics_eq`
-/

------------------------------------------------------------
-- Inquiries
------------------------------------------------------------

namespace GraphQL

/- The hook of an abstract type that names object types. -/
def NamedType.typeHook? : NamedType → Option Hook
| .defined (.interface type) => type.resolveType
| .defined (.union type) => type.resolveType
| _ => none

namespace AbstractType

/- A value of an abstract type, the object type of which is
   asked for. -/
structure Inquiry where
  schema : Schema
  hooks : Hooks
  type : NamedType
  value : Json
  info : ResolveInfo

namespace Inquiry

/- The answer, with what there is to say about it. -/
def outcome (self : Inquiry) :
    Except AbstractTypeError ObjectType × List Notice :=
  resolve self.schema self.hooks self.type self.value self.info

/- The object type of the value, or why it has none. -/
def answer (self : Inquiry) :
    Except AbstractTypeError ObjectType :=
  self.outcome.1

def notices (self : Inquiry) : List Notice :=
  self.outcome.2

/- The possible types, in order. -/
def candidates (self : Inquiry) : List ObjectType :=
  self.schema.possibleTypes self.type

/- The possible type of a name. -/
def possible? (self : Inquiry) (name : String) :
    Option ObjectType :=
  self.candidates.find? fun object => object.name == name

/- What the hook of the type says, if there is one. -/
def hookAnswer? (self : Inquiry) : Option (Option String) :=
  self.type.typeHook?.map fun hook =>
    self.hooks.typeName hook self.value self.info

/- The possible type that the value itself names. -/
def carried? (self : Inquiry) : Option ObjectType := do
  let name ← (← self.value.get? "__typename").string?
  self.possible? name

/- Whether the hook of an object type accepts the value. -/
def accepts (self : Inquiry) (object : ObjectType) : Bool :=
  match object.isTypeOf with
  | some hook => self.hooks.isTypeOf hook self.value self.info
  | none => false

/- The hook of the type names no type. -/
def unanswered (self : Inquiry) : Bool :=
  self.hookAnswer? == some none

/- There is no hook, and the value names no possible type. -/
def unhooked (self : Inquiry) : Bool :=
  self.type.isAbstract && self.hookAnswer?.isNone &&
    self.carried?.isNone

/- A type without a hook leaves no value unanswered. -/
theorem unhooked_of_unanswered
    {self : Inquiry}
    (h : self.unanswered = true) : self.unhooked = false := by
  rw [unanswered, beq_iff_eq] at h
  rw [unhooked, h]
  simp

/- The first possible type that accepts the value. -/
def scanned (self : Inquiry) :
    Except AbstractTypeError ObjectType :=
  match self.candidates.find? self.accepts with
  | some object => .ok object
  | none =>
      .error
        (.noMatch self.type.name self.info.parent.name
          self.info.field.name self.value.text)

/- The report of the scan. -/
def scanReport (self : Inquiry) : Notice :=
  .event (scanEvent self.type
    (self.candidates.find? self.accepts))

------------------------------------------------------------
-- Outcomes
------------------------------------------------------------

/-
  The outcome, by what the hook says and what the value names.
-/
theorem outcome_eq
    {self : Inquiry}
    (hAbstract : self.type.isAbstract = true) :
    self.outcome =
      match self.hookAnswer? with
      | some (some name) =>
          match self.possible? name with
          | some object => (.ok object, [])
          | none => (.error (.notPossible self.type.name name), [])
      | some none =>
          (self.scanned,
            [.warn (nullDiagnostic self.type self.value),
              self.scanReport])
      | none =>
          match self.carried? with
          | some object => (.ok object, [])
          | none =>
              (self.scanned,
                [.warnOnce (absentDiagnostic self.type),
                  self.scanReport]) := by
  have hWith : self.outcome =
      resolveWith self.schema self.hooks self.type
        self.type.typeHook? self.value self.info := by
    rcases self with ⟨schema, hooks, type, value, info⟩
    cases type with
    | builtin scalar => cases scalar <;> cases hAbstract
    | defined type =>
        cases type with
        | interface type => rfl
        | union type => rfl
        | _ => cases hAbstract
  rw [hWith]
  unfold resolveWith hookAnswer?
  cases self.type.typeHook? with
  | none => rfl
  | some hook =>
      simp only [Option.map_some]
      cases self.hooks.typeName hook self.value self.info with
      | some name => rfl
      | none => rfl

/- Types that are not abstract are refused without a word. -/
theorem outcome_of_not_abstract
    {self : Inquiry}
    (hAbstract : self.type.isAbstract = false) :
    self.outcome = (.error (.notAbstract self.type.name), []) ∧
      self.hookAnswer? = none := by
  rcases self with ⟨schema, hooks, type, value, info⟩
  cases type with
  | builtin scalar => exact ⟨rfl, rfl⟩
  | defined type =>
      cases type with
      | interface type => cases hAbstract
      | union type => cases hAbstract
      | _ => exact ⟨rfl, rfl⟩

/- Possible types are objects of the schema. -/
theorem mem_objects_of_mem_candidates
    {self : Inquiry}
    {object : ObjectType}
    (h : object ∈ self.candidates) :
    object ∈ self.schema.types.objects :=
  TypeGraph.mem_objects_iff.2
    (Schema.mem_types_of_mem_possibleTypes h)

/- The possible type of a name is the one that bears it. -/
theorem possible?_eq_some_iff
    {self : Inquiry}
    {name : String}
    {object : ObjectType} :
    self.possible? name = some object ↔
      object ∈ self.candidates ∧ object.name = name := by
  constructor
  · intro h
    exact ⟨List.mem_of_find?_eq_some h,
      by simpa using List.find?_some h⟩
  · rintro ⟨hObject, rfl⟩
    cases hFound : self.possible? object.name with
    | none =>
        have hNone := List.find?_eq_none.1 hFound object hObject
        simp at hNone
    | some found =>
        have hMem := List.mem_of_find?_eq_some hFound
        have hName : found.name = object.name := by
          simpa using List.find?_some hFound
        rw [TypeGraph.object_eq_of_name_eq
          (mem_objects_of_mem_candidates hMem)
          (mem_objects_of_mem_candidates hObject) hName]

/- No possible type has a name that none is found under. -/
theorem possible?_eq_none_iff
    {self : Inquiry}
    {name : String} :
    self.possible? name = none ↔
      ∀ object ∈ self.candidates, object.name ≠ name := by
  simp [possible?, List.find?_eq_none]

/- A value carries the name of a possible type as a string. -/
theorem carried?_eq_some_iff
    {self : Inquiry}
    {object : ObjectType} :
    self.carried? = some object ↔
      object ∈ self.candidates ∧
        self.value.get? "__typename" =
          some (.string object.name) := by
  simp only [carried?, Option.bind_eq_bind,
    Option.bind_eq_some_iff]
  constructor
  · rintro ⟨value, hValue, name, hName, hObject⟩
    rcases possible?_eq_some_iff.1 hObject with ⟨hMem, rfl⟩
    cases value with
    | string text =>
        cases hName
        exact ⟨hMem, hValue⟩
    | _ => cases hName
  · rintro ⟨hMem, hValue⟩
    exact ⟨_, hValue, object.name, rfl,
      possible?_eq_some_iff.2 ⟨hMem, rfl⟩⟩

/- What is found by a scan is a possible type. -/
theorem mem_candidates_of_scanned
    {self : Inquiry}
    {object : ObjectType}
    (h : self.scanned = .ok object) :
    object ∈ self.candidates := by
  unfold scanned at h
  split at h
  · next found hFound =>
      cases h
      exact List.mem_of_find?_eq_some hFound
  · cases h

/- The object type of a value is a possible type. -/
theorem mem_candidates
    {self : Inquiry}
    {object : ObjectType}
    (h : self.answer = .ok object) :
    object ∈ self.candidates := by
  cases hAbstract : self.type.isAbstract with
  | false =>
      rw [answer, (outcome_of_not_abstract hAbstract).1] at h
      cases h
  | true =>
      rw [answer, outcome_eq hAbstract] at h
      split at h
      · split at h
        · next found hFound =>
            cases h
            exact (possible?_eq_some_iff.1 hFound).1
        · cases h
      · exact mem_candidates_of_scanned h
      · split at h
        · next found hFound =>
            cases h
            exact (carried?_eq_some_iff.1 hFound).1
        · exact mem_candidates_of_scanned h

/- A hook that names a type decides, whatever else there is. -/
theorem outcome_of_hookAnswer
    {self : Inquiry}
    {name : String}
    (hAnswer : self.hookAnswer? = some (some name)) :
    self.outcome =
      match self.possible? name with
      | some object => (.ok object, [])
      | none => (.error (.notPossible self.type.name name), []) := by
  cases hAbstract : self.type.isAbstract with
  | false =>
      rw [(outcome_of_not_abstract hAbstract).2] at hAnswer
      cases hAnswer
  | true => rw [outcome_eq hAbstract, hAnswer]

/- Without a hook, the name of a possible type decides. -/
theorem outcome_of_carried
    {self : Inquiry}
    {object : ObjectType}
    (hAbstract : self.type.isAbstract = true)
    (hHook : self.hookAnswer? = none)
    (hCarried : self.carried? = some object) :
    self.outcome = (.ok object, []) := by
  rw [outcome_eq hAbstract, hHook, hCarried]

/- Whether the possible types are asked. -/
def scans (self : Inquiry) : Bool :=
  self.unanswered || self.unhooked

/- Otherwise the possible types are asked in order. -/
theorem answer_of_scans
    {self : Inquiry}
    (hAbstract : self.type.isAbstract = true)
    (hScans : self.scans = true) :
    self.answer = self.scanned := by
  rw [answer, outcome_eq hAbstract]
  simp only [scans, unanswered, unhooked, Bool.or_eq_true,
    Bool.and_eq_true, beq_iff_eq, Option.isNone_iff_eq_none]
    at hScans
  rcases hScans with hNone | ⟨⟨-, hNone⟩, hCarried⟩
  · rw [hNone]
  · rw [hNone, hCarried]

/-
  The first one that accepts the value is taken, and there is
  none if and only if none accepts it.
-/
theorem scanned_eq_ok_iff
    {self : Inquiry}
    {object : ObjectType} :
    self.scanned = .ok object ↔
      self.accepts object = true ∧
        ∃ before after,
          self.candidates = before ++ object :: after ∧
            ∀ other ∈ before, self.accepts other = false := by
  unfold scanned
  cases hFound : self.candidates.find? self.accepts with
  | none =>
      refine ⟨nofun, ?_⟩
      rintro ⟨hAccepts, before, after, hCandidates, -⟩
      have hNone := List.find?_eq_none.1 hFound object
        (by simp [hCandidates])
      exact absurd hAccepts hNone
  | some found =>
      rw [Except.ok.injEq, ← Option.some_inj, ← hFound,
        List.find?_eq_some_iff_append]
      simp

theorem scanned_eq_noMatch_iff
    {self : Inquiry} :
    self.scanned =
        .error
          (.noMatch self.type.name self.info.parent.name
            self.info.field.name self.value.text) ↔
      ∀ object ∈ self.candidates,
        self.accepts object = false := by
  unfold scanned
  cases hFound : self.candidates.find? self.accepts with
  | none => simpa using List.find?_eq_none.1 hFound
  | some found =>
      refine ⟨nofun, fun hNone => ?_⟩
      have hRefused :=
        hNone found (List.mem_of_find?_eq_some hFound)
      rw [List.find?_some hFound] at hRefused
      cases hRefused

/-
  How the object type of a value is decided. It is a possible
  type. A hook that names a type decides alone; without a hook,
  the name that the value carries does, if a possible type has
  it; and otherwise it is the first possible type that accepts
  the value.
-/
structure Decided (inquiry : Inquiry) : Prop where
  possible : ∀ object, inquiry.answer = .ok object →
    object ∈ inquiry.candidates
  named : ∀ hook name, inquiry.type.typeHook? = some hook →
    inquiry.hooks.typeName hook inquiry.value inquiry.info =
      some name →
    (∀ object ∈ inquiry.candidates, object.name = name →
      inquiry.outcome = (.ok object, [])) ∧
    ((∀ object ∈ inquiry.candidates, object.name ≠ name) →
      inquiry.outcome =
        (.error (.notPossible inquiry.type.name name), [])) ∧
    ∀ hooks value info,
      hooks.typeName hook value info = some name →
      resolve inquiry.schema hooks inquiry.type value info =
        inquiry.outcome
  carried : inquiry.type.typeHook? = none →
    ∀ object ∈ inquiry.candidates,
      inquiry.value.get? "__typename" =
        some (.string object.name) →
      inquiry.outcome = (.ok object, [])
  scanned :
    (∀ hook name, inquiry.type.typeHook? = some hook →
      inquiry.hooks.typeName hook inquiry.value inquiry.info ≠
        some name) →
    (inquiry.type.typeHook? = none →
      ∀ object ∈ inquiry.candidates,
        inquiry.value.get? "__typename" ≠
          some (.string object.name)) →
    (∀ object, inquiry.answer = .ok object ↔
      inquiry.accepts object = true ∧
        ∃ before after,
          inquiry.candidates = before ++ object :: after ∧
            ∀ other ∈ before, inquiry.accepts other = false) ∧
    (inquiry.answer =
        .error
          (.noMatch inquiry.type.name inquiry.info.parent.name
            inquiry.info.field.name inquiry.value.text) ↔
      ∀ object ∈ inquiry.candidates,
        inquiry.accepts object = false)

/- Where nothing else decides, the possible types are asked. -/
theorem scans_of_undecided
    {self : Inquiry}
    (hAbstract : self.type.isAbstract = true)
    (hNamed : ∀ hook name, self.type.typeHook? = some hook →
      self.hooks.typeName hook self.value self.info ≠ some name)
    (hCarried : self.type.typeHook? = none →
      ∀ object ∈ self.candidates,
        self.value.get? "__typename" ≠
          some (.string object.name)) :
    self.scans = true := by
  simp only [scans, unanswered, unhooked, hAbstract,
    Bool.true_and, Bool.or_eq_true, Bool.and_eq_true, beq_iff_eq,
    Option.isNone_iff_eq_none, hookAnswer?,
    Option.map_eq_some_iff, Option.map_eq_none_iff]
  cases hHook : self.type.typeHook? with
  | some hook =>
      refine .inl ⟨hook, rfl, ?_⟩
      exact Option.eq_none_iff_forall_ne_some.2 fun name =>
        hNamed hook name hHook
  | none =>
      refine .inr ⟨rfl, ?_⟩
      refine Option.eq_none_iff_forall_ne_some.2 ?_
      intro object hObject
      rcases carried?_eq_some_iff.1 hObject with ⟨hMem, hValue⟩
      exact hCarried hHook object hMem hValue

/- The object type of every value is decided so. -/
theorem decided
    {self : Inquiry}
    (hAbstract : self.type.isAbstract = true) :
    self.Decided where
  possible _ := mem_candidates
  named := by
    intro hook name hHook hName
    have hAnswer : self.hookAnswer? = some (some name) := by
      rw [hookAnswer?, hHook, Option.map_some, hName]
    have hOutcome := outcome_of_hookAnswer hAnswer
    refine ⟨?_, ?_, ?_⟩
    · intro object hObject hSame
      rw [hOutcome, possible?_eq_some_iff.2 ⟨hObject, hSame⟩]
    · intro hNone
      rw [hOutcome, possible?_eq_none_iff.2 hNone]
    · intro hooks value info hOther
      let other : Inquiry :=
        ⟨self.schema, hooks, self.type, value, info⟩
      have hOtherAnswer : other.hookAnswer? = some (some name) := by
        rw [hookAnswer?, hHook, Option.map_some, hOther]
      rw [hOutcome]
      exact outcome_of_hookAnswer hOtherAnswer
  carried := by
    intro hHook object hObject hValue
    have hNone : self.hookAnswer? = none := by
      rw [hookAnswer?, hHook, Option.map_none]
    exact outcome_of_carried hAbstract hNone
      (carried?_eq_some_iff.2 ⟨hObject, hValue⟩)
  scanned := by
    intro hNamed hCarried
    rw [answer_of_scans hAbstract
      (scans_of_undecided hAbstract hNamed hCarried)]
    exact ⟨fun _ => scanned_eq_ok_iff, scanned_eq_noMatch_iff⟩

------------------------------------------------------------
-- Diagnostics
------------------------------------------------------------

end Inquiry

end AbstractType

/- Whether a notice raises a diagnostic. -/
def Notice.isDiagnostic : Notice → Bool
| warn _ => true
| warnOnce _ => true
| event _ => false

namespace AbstractType

namespace Inquiry

/- The diagnostics that are raised on the way to the answer. -/
def diagnostics (self : Inquiry) : List Notice :=
  self.notices.filter Notice.isDiagnostic

/-
  A diagnostic is raised for every value whose hook names no
  type, one is raised once for values that are scanned without
  a hook, and none is raised for any other value.
-/
theorem diagnostics_eq (self : Inquiry) :
    self.diagnostics =
      if self.unanswered then
        [.warn (nullDiagnostic self.type self.value)]
      else if self.unhooked then
        [.warnOnce (absentDiagnostic self.type)]
      else
        [] := by
  unfold diagnostics notices unanswered unhooked
  cases hAbstract : self.type.isAbstract with
  | false =>
      rcases outcome_of_not_abstract hAbstract with
        ⟨hOutcome, hNone⟩
      rw [hOutcome, hNone]
      rfl
  | true =>
      rw [outcome_eq hAbstract]
      cases self.hookAnswer? with
      | none => cases self.carried? <;> rfl
      | some name? =>
          cases name? with
          | none => rfl
          | some name =>
              dsimp only
              cases self.possible? name <;> rfl

end Inquiry

end AbstractType

end GraphQL
