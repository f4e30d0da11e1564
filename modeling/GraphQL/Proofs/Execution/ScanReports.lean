import GraphQL.Proofs.Execution.AbstractDecisions
import GraphQL.Proofs.Execution.Invariant

/-
  Reports of scans, over all executions that share a sink.

  An execution raises the diagnostics of the values whose object
  types it asks for, and no others. A sink lets those through
  that a hook has left unanswered, and of all others the first.

  Key definitions include:
    * `ExecutionContext.selectionInquiries`: the values of
      abstract types, in the order they are met
    * `Request.inquiries`
    * `Session`: what one sink reports of many executions

  Main declarations:
    * `ExecutionContext.logs_executeSelections`
    * `Request.diagnostics_of_execute`
    * `Session.tally`
-/

------------------------------------------------------------
-- Inquiries Of An Execution
------------------------------------------------------------

namespace GraphQL

open AbstractType (Inquiry)

/- The inquiries of members, up to one that has no value. -/
def Completion.logAll {α β γ : Type}
    (f : α → Completion β)
    (log : α → List γ) : List α → List γ
| [] => []
| a :: rest =>
    log a ++
      match f a with
      | some ⟨some _, _, _⟩ => logAll f log rest
      | _ => []

/- The inquiries of the selections of an object. -/
abbrev InquiryLog :=
  List PathSegment → ObjectType → Json → List Selection →
    List Inquiry

namespace ExecutionContext

/- The inquiries of a value of a named type. -/
def namedInquiries
    (self : ExecutionContext)
    (log : InquiryLog)
    (info : ResolveInfo)
    (group : FieldGroup)
    (path : List PathSegment)
    (name : String)
    (value : Json) : List Inquiry :=
  let inside (object : ObjectType) :=
    log path object value
      (group.nodes.flatMap FieldNode.selections)
  match self.schema.lookup name with
  | some (.defined (.object type)) =>
      let accepted :=
        match type.isTypeOf with
        | some hook => self.hooks.isTypeOf hook value info
        | none => true
      if accepted then inside type else []
  | some type =>
      if type.isAbstract then
        let inquiry : Inquiry :=
          ⟨self.schema, self.hooks, type, value, info⟩
        inquiry ::
          match inquiry.answer with
          | .ok object => inside object
          | .error _ => []
      else
        []
  | none => []

/- The inquiries of a value. -/
def valueInquiries
    (self : ExecutionContext)
    (execute : SelectionExecutor)
    (log : InquiryLog)
    (info : ResolveInfo)
    (group : FieldGroup) :
    TypeRef → List PathSegment → Json → List Inquiry
| .named name _ _, path, value =>
    if value.isNull then
      []
    else
      self.namedInquiries log info group path name value
| .list inner _ _, path, .array items =>
    let completeItem (item : Json × Nat) :=
      Completion.nullify inner
        (self.completeValue execute info group inner
          (path ++ [.index item.2]) item.1)
    let itemInquiries (item : Json × Nat) :=
      valueInquiries self execute log info group inner
        (path ++ [.index item.2]) item.1
    Completion.logAll completeItem itemInquiries items.zipIdx
| .list _ _ _, _, _ => []

/- The inquiries of a field. -/
def fieldInquiries
    (self : ExecutionContext)
    (execute : SelectionExecutor)
    (log : InquiryLog)
    (path : List PathSegment)
    (parent : ObjectType)
    (source : Json)
    (field : OutputField)
    (group : FieldGroup) : List Inquiry :=
  let info := self.info path parent field group
  let arguments :=
    (Coercion.arguments self.schema self.bindings self.fuel
      field group.first.head.arguments).run
  match arguments with
  | some (.ok arguments) =>
      match (self.resolve info source arguments).result with
      | .ok value =>
          self.valueInquiries execute log info group field.type
            path value
      | .error _ => []
  | _ => []

/- The inquiries of a group of fields. -/
def groupInquiries
    (self : ExecutionContext)
    (execute : SelectionExecutor)
    (log : InquiryLog)
    (path : List PathSegment)
    (parent : ObjectType)
    (source : Json)
    (group : FieldGroup) : List Inquiry :=
  let name := group.first.head.name
  if name = "__typename" then
    []
  else
    match parent.field? name with
    | none => []
    | some field =>
        self.fieldInquiries execute log
          (path ++ [.key group.key]) parent source field group

/-
  The inquiries of the selections of an object: of its fields in
  turn, until one passes an error on.
-/
def selectionInquiries (self : ExecutionContext) :
    Nat → InquiryLog
| 0, _, _, _, _ => []
| fuel + 1, path, object, source, selections =>
    let execute := self.executeSelections fuel
    Completion.logAll
      (self.executeGroup execute path object source)
      (self.groupInquiries execute
        (selectionInquiries self fuel) path object source)
      (self.collect object selections)

end ExecutionContext

------------------------------------------------------------
-- Diagnostics Of An Execution
------------------------------------------------------------

namespace Completion

variable {α β : Type}

/- The diagnostics of a completion are those of the inquiries. -/
def Logs (c : Completion α) (log : List Inquiry) : Prop :=
  ∀ completed, c = some completed →
    completed.notices.filter Notice.isDiagnostic =
      log.flatMap Inquiry.diagnostics

theorem logs_done (value : α) : Logs (done value) [] := by
  rintro _ ⟨⟩
  rfl

theorem logs_fail (error : FieldError) :
    Logs (fail error : Completion α) [] := by
  rintro _ ⟨⟩
  rfl

theorem Logs.mapValue
    {c : Completion α}
    {log : List Inquiry}
    (h : c.Logs log)
    (f : α → β) : (c.mapValue f).Logs log := by
  intro completed hCompleted
  rcases Option.map_eq_some_iff.1 hCompleted with
    ⟨first, hFirst, rfl⟩
  exact h first hFirst

theorem Logs.nullify
    {c : Completion Json}
    {log : List Inquiry}
    (h : c.Logs log)
    (type : TypeRef) : (c.nullify type).Logs log := by
  intro completed hCompleted
  rcases Option.map_eq_some_iff.1 hCompleted with
    ⟨first, hFirst, rfl⟩
  have hNotices := h first hFirst
  split
  · exact hNotices
  · split <;> exact hNotices

/- Notices that come first add their own diagnostics. -/
theorem Logs.noting
    {c : Completion α}
    {log before : List Inquiry}
    {notices : List Notice}
    (h : c.Logs log)
    (hBefore : notices.filter Notice.isDiagnostic =
      before.flatMap Inquiry.diagnostics) :
    (c.noting notices).Logs (before ++ log) := by
  intro completed hCompleted
  rcases Option.map_eq_some_iff.1 hCompleted with
    ⟨last, hLast, rfl⟩
  rw [List.filter_append, hBefore, h last hLast,
    List.flatMap_append]

/- Members are logged as far as they are completed. -/
theorem logs_traverse
    {f : α → Completion β}
    {log : α → List Inquiry}
    (h : ∀ a, (f a).Logs (log a))
    (members : List α) :
    (traverse f members).Logs (logAll f log members) := by
  induction members with
  | nil => exact logs_done []
  | cons a rest ih =>
      intro completed hCompleted
      rw [traverse] at hCompleted
      rw [logAll]
      cases hFirst : f a with
      | none =>
          rw [hFirst] at hCompleted
          cases hCompleted
      | some first =>
          have hNotices := h a first hFirst
          rw [hFirst] at hCompleted
          rcases first with ⟨value?, errors, notices⟩
          cases value? with
          | none =>
              cases hCompleted
              simpa using hNotices
          | some value =>
              rcases Option.map_eq_some_iff.1 hCompleted with
                ⟨last, hLast, rfl⟩
              rw [List.filter_append, List.flatMap_append,
                hNotices, ih.mapValue _ last hLast]

end Completion

namespace ExecutionContext

open Completion

variable {self : ExecutionContext}
variable {execute : SelectionExecutor}
variable {log : InquiryLog}

/- A leaf is serialized without an inquiry. -/
theorem logs_leaf
    (group : FieldGroup)
    (path : List PathSegment)
    (type : NamedType)
    (value : Json) :
    (match type.serialize value with
      | .ok value => done value
      | .error error => fault group path (.leaf error)).Logs
      [] := by
  cases type.serialize value with
  | ok value => exact logs_done value
  | error error => exact logs_fail _

section

variable
  (hExecute : ∀ path type source selections,
    (execute path type source selections).Logs
      (log path type source selections))

include hExecute

/- An object is logged as its selections are. -/
theorem logs_completeObject
    (group : FieldGroup)
    (path : List PathSegment)
    (type : ObjectType)
    (value : Json) :
    (completeObject execute group path type value).Logs
      (log path type value
        (group.nodes.flatMap FieldNode.selections)) :=
  (hExecute _ _ _ _).mapValue Json.object

/- An inquiry comes before those of the object it finds. -/
theorem logs_inquiry
    (inquiry : Inquiry)
    (group : FieldGroup)
    (path : List PathSegment) :
    (noting inquiry.notices
        (match inquiry.answer with
        | .ok object =>
            completeObject execute group path object inquiry.value
        | .error error =>
            fault group path (.abstractType error))).Logs
      (inquiry ::
        match inquiry.answer with
        | .ok object =>
            log path object inquiry.value
              (group.nodes.flatMap FieldNode.selections)
        | .error _ => []) := by
  have hOwn : inquiry.notices.filter Notice.isDiagnostic =
      [inquiry].flatMap Inquiry.diagnostics := by
    rw [List.flatMap_singleton]
    rfl
  cases inquiry.answer with
  | ok object =>
      exact (logs_completeObject hExecute group path object
        inquiry.value).noting hOwn
  | error error => exact (logs_fail _).noting hOwn

/- The inquiries of a value of a named type. -/
theorem logs_completeNamed
    (info : ResolveInfo)
    (group : FieldGroup)
    (path : List PathSegment)
    (name : String)
    (value : Json) :
    (self.completeNamed execute info group path name value).Logs
      (self.namedInquiries log info group path name value) := by
  have hAbstract (type : NamedType) :=
    logs_inquiry hExecute
      ⟨self.schema, self.hooks, type, value, info⟩ group path
  have hLeaf (type : NamedType) :=
    logs_leaf group path type value
  unfold completeNamed namedInquiries
  cases self.schema.lookup name with
  | none => exact logs_fail _
  | some type =>
      cases type with
      | builtin scalar =>
          have hBuiltin := hLeaf (.builtin scalar)
          cases scalar <;> exact hBuiltin
      | defined type =>
          cases type with
          | inputObject type => exact logs_fail _
          | interface type =>
              exact hAbstract (.defined (.interface type))
          | union type => exact hAbstract (.defined (.union type))
          | enum type => exact hLeaf (.defined (.enum type))
          | scalar type => exact hLeaf (.defined (.scalar type))
          | object type =>
              have hInside := logs_completeObject hExecute group
                path type value
              dsimp only
              cases type.isTypeOf with
              | none => exact hInside
              | some hook =>
                  dsimp only
                  by_cases hAccepts :
                      self.hooks.isTypeOf hook value info = true
                  · rw [if_pos hAccepts, if_pos hAccepts]
                    exact hInside
                  · rw [if_neg hAccepts, if_neg hAccepts]
                    exact logs_fail _

/- The inquiries of a value, by induction on its type. -/
theorem logs_completeValue
    (info : ResolveInfo)
    (group : FieldGroup)
    (type : TypeRef)
    (path : List PathSegment)
    (value : Json) :
    (self.completeValue execute info group type path value).Logs
      (self.valueInquiries execute log info group type path
        value) := by
  induction type generalizing path value with
  | named name nullable location =>
      rw [completeValue, valueInquiries]
      split
      · split
        · exact logs_done _
        · exact logs_fail _
      · exact logs_completeNamed hExecute info group path name
          value
  | list inner nullable location ih =>
      cases value with
      | array items =>
          rw [completeValue, valueInquiries]
          refine Logs.mapValue (logs_traverse ?_ _) Json.array
          intro item
          exact (ih _ _).nullify inner
      | null =>
          rw [completeValue, valueInquiries]
          · split
            · exact logs_done _
            · exact logs_fail _
          · intro items hItems
            cases hItems
      | _ =>
          rw [completeValue, valueInquiries]
          · exact logs_fail _
          all_goals
            intros
            contradiction

/- The inquiries of a field are those of its value. -/
theorem logs_executeField
    (path : List PathSegment)
    (parent : ObjectType)
    (source : Json)
    (field : OutputField)
    (group : FieldGroup) :
    (self.executeField execute path parent source field
        group).Logs
      (self.fieldInquiries execute log path parent source field
        group) := by
  unfold executeField fieldInquiries
  refine Logs.nullify ?_ field.type
  dsimp only
  split
  · next hArguments =>
      rw [hArguments]
      nofun
  · next error hArguments =>
      rw [hArguments]
      exact logs_fail _
  · next arguments hArguments =>
      rw [hArguments]
      have hEvents (events : List Trace.Event) :
          (events.map Notice.event).filter Notice.isDiagnostic =
            ([] : List Inquiry).flatMap Inquiry.diagnostics := by
        induction events with
        | nil => rfl
        | cons event rest ih => exact ih
      refine Logs.noting ?_ (hEvents _)
      cases (self.resolve (self.info path parent field group)
          source arguments).result with
      | error message => exact logs_fail _
      | ok value =>
          exact logs_completeValue hExecute _ group field.type
            path value

theorem logs_executeGroup
    (path : List PathSegment)
    (parent : ObjectType)
    (source : Json)
    (group : FieldGroup) :
    (self.executeGroup execute path parent source group).Logs
      (self.groupInquiries execute log path parent source
        group) := by
  unfold executeGroup groupInquiries
  dsimp only
  split
  · exact logs_done _
  · cases parent.field? group.first.head.name with
    | none => exact logs_done _
    | some field =>
        exact (logs_executeField hExecute _ parent source field
          group).mapValue _

end

/- All diagnostics are those of the values that are met. -/
theorem logs_executeSelections
    (fuel : Nat)
    (path : List PathSegment)
    (type : ObjectType)
    (source : Json)
    (selections : List Selection) :
    (self.executeSelections fuel path type source
        selections).Logs
      (self.selectionInquiries fuel path type source
        selections) := by
  induction fuel generalizing path type source selections with
  | zero => nofun
  | succ fuel ih =>
      rw [executeSelections, selectionInquiries]
      refine Logs.mapValue (logs_traverse ?_ _) _
      intro group
      exact logs_executeGroup ih path type source group

end ExecutionContext

namespace Request

/- The inquiries of the operation that a request executes. -/
def inquiries
    (request : Request)
    (schema : Schema)
    (hooks : Hooks)
    (fuel : Nat)
    (document : ExecutableDocument) : List Inquiry :=
  match request.select document.operations with
  | .error _ => []
  | .ok operation =>
      let bindings :=
        (Coercion.bindings schema fuel request.bindings
          operation.definitions).run
      match bindings with
      | some (.ok bindings) =>
          match rootType schema operation with
          | .error _ => []
          | .ok object =>
              let context := request.context schema hooks fuel
                document operation bindings
              context.selectionInquiries fuel [] object
                request.rootValue operation.selections
      | _ => []

/- A run raises the diagnostics of its inquiries. -/
theorem diagnostics_of_execute
    {request : Request}
    {schema : Schema}
    {hooks : Hooks}
    {fuel : Nat}
    {document : ExecutableDocument}
    {answer : Run}
    (h :
      request.execute schema hooks fuel document = some answer) :
    answer.notices.filter Notice.isDiagnostic =
      (request.inquiries schema hooks fuel document).flatMap
        Inquiry.diagnostics := by
  unfold execute at h
  unfold inquiries
  cases hSelect : request.select document.operations with
  | error error =>
      rw [hSelect] at h
      cases h
      rfl
  | ok operation =>
      rw [hSelect] at h
      rcases Option.bind_eq_some_iff.1 h with
        ⟨outcome, hBindings, h⟩
      simp only [hBindings]
      cases outcome with
      | error errors =>
          cases h
          rfl
      | ok bindings =>
          dsimp only at h ⊢
          cases hRoot : rootType schema operation with
          | error error =>
              rw [hRoot] at h
              cases h
              rfl
          | ok object =>
              rw [hRoot] at h
              rcases Option.bind_eq_some_iff.1 h with
                ⟨outcome, hOutcome, h⟩
              cases h
              have hLogs :=
                ExecutionContext.logs_executeSelections fuel []
                  object request.rootValue operation.selections
                  outcome hOutcome
              rw [run, List.filter_append, hLogs]
              exact List.append_nil _

end Request

------------------------------------------------------------
-- Sinks
------------------------------------------------------------

/- Whether a report is about the scan of possible types. -/
def Report.isScan : Report → Bool
| diagnostic d => d.ids.contains .fullSchemaScan
| event _ => false

theorem Report.isScan_of_ids
    {diagnostic : Diagnostic}
    (hIds : diagnostic.ids = .fullSchemaScan) :
    (Report.diagnostic diagnostic).isScan = true := by
  rw [isScan, hIds]
  decide

namespace DiagnosticIds

/- A set has the ids that are added to it. -/
theorem contains_union (a b : DiagnosticIds) :
    (a.union b).contains b = true := by
  rw [contains, union, beq_iff_eq]
  ext i hi
  rw [BitVec.getElem_and, BitVec.getElem_or]
  cases b.bits[i] <;> simp

end DiagnosticIds

namespace Sink

variable {sink : Sink}

theorem receiveAll_cons
    (sink : Sink)
    (notice : Notice)
    (rest : List Notice) :
    sink.receiveAll (notice :: rest) =
      (((sink.receive notice).1.receiveAll rest).1,
        (sink.receive notice).2 ++
          ((sink.receive notice).1.receiveAll rest).2) :=
  rfl

/- Notices are received one part after the other. -/
theorem receiveAll_append
    (sink : Sink)
    (first second : List Notice) :
    sink.receiveAll (first ++ second) =
      (((sink.receiveAll first).1.receiveAll second).1,
        (sink.receiveAll first).2 ++
          ((sink.receiveAll first).1.receiveAll second).2) := by
  induction first generalizing sink with
  | nil => rfl
  | cons notice rest ih =>
      simp only [List.cons_append, receiveAll_cons, ih,
        List.append_assoc]

/- Events leave the sink as it is, and are no scans. -/
theorem receiveAll_diagnostics
    (sink : Sink)
    (notices : List Notice) :
    (sink.receiveAll (notices.filter Notice.isDiagnostic)).1 =
        (sink.receiveAll notices).1 ∧
      (sink.receiveAll
          (notices.filter Notice.isDiagnostic)).2.countP
            Report.isScan =
        (sink.receiveAll notices).2.countP Report.isScan := by
  induction notices generalizing sink with
  | nil => exact ⟨rfl, rfl⟩
  | cons notice rest ih =>
      cases notice with
      | event event => exact ih sink
      | warn diagnostic =>
          have hRest := ih (sink.receive (.warn diagnostic)).1
          refine ⟨hRest.1, ?_⟩
          rw [List.filter_cons_of_pos rfl, receiveAll_cons,
            receiveAll_cons, List.countP_append,
            List.countP_append, hRest.2]
      | warnOnce diagnostic =>
          have hRest := ih (sink.receive (.warnOnce diagnostic)).1
          refine ⟨hRest.1, ?_⟩
          rw [List.filter_cons_of_pos rfl, receiveAll_cons,
            receiveAll_cons, List.countP_append,
            List.countP_append, hRest.2]

section

variable {diagnostic : Diagnostic}
variable (hIds : diagnostic.ids = .fullSchemaScan)
variable (hEnabled : sink.isEnabled .fullSchemaScan = true)

include hIds hEnabled

/- Every diagnostic about a scan is reported. -/
theorem receiveAll_warn :
    sink.receiveAll [.warn diagnostic] =
      (sink, [.diagnostic diagnostic]) := by
  simp only [receiveAll, receive, warn, hIds, hEnabled, if_true,
    List.append_nil]

/- One that is raised once is reported if there was none. -/
theorem receiveAll_warnOnce :
    sink.receiveAll [.warnOnce diagnostic] =
      if sink.warned.contains .fullSchemaScan then
        (sink, [])
      else
        ({ sink with
            warned := sink.warned.union .fullSchemaScan },
          [.diagnostic diagnostic]) := by
  simp only [receiveAll, receive, warnOnce, hIds, hEnabled,
    Bool.not_true, List.append_nil]
  cases sink.warned.contains .fullSchemaScan <;> rfl

end

end Sink

------------------------------------------------------------
-- Sessions
------------------------------------------------------------

/-
  What a sink, fresh at first, has reported, and the values of
  abstract types that were met: in executions that share the
  sink, one after another, and where a type is asked for alone.
  Ids may be enabled and suppressed between them, but for that
  of scans, which stays enabled.
-/
inductive Session : Sink → List Report → List Inquiry → Prop where
  | start : Session .fresh [] []
  | execute
      {sink : Sink}
      {reports : List Report}
      {met : List Inquiry}
      {request : Request}
      {schema : Schema}
      {hooks : Hooks}
      {fuel : Nat}
      {document : ExecutableDocument}
      {answer : Run} :
      Session sink reports met →
      request.execute schema hooks fuel document =
        some answer →
      Session (sink.receiveAll answer.notices).1
        (reports ++ (sink.receiveAll answer.notices).2)
        (met ++ request.inquiries schema hooks fuel document)
  | ask
      {sink : Sink}
      {reports : List Report}
      {met : List Inquiry}
      {inquiry : Inquiry} :
      Session sink reports met →
      Session (sink.receiveAll inquiry.notices).1
        (reports ++ (sink.receiveAll inquiry.notices).2)
        (met ++ [inquiry])
  | adjust
      {sink : Sink}
      {reports : List Report}
      {met : List Inquiry}
      {enabled : DiagnosticIds} :
      Session sink reports met →
      enabled.intersects .fullSchemaScan = true →
      Session { sink with enabled := enabled } reports met

/- The scans that are reported are counted. -/
structure Session.Tally
    (sink : Sink)
    (reports : List Report)
    (met : List Inquiry) : Prop where
  enabled : sink.isEnabled .fullSchemaScan = true
  warned : sink.warned.contains .fullSchemaScan =
    met.any Inquiry.unhooked
  count : reports.countP Report.isScan =
    met.countP Inquiry.unanswered +
      if met.any Inquiry.unhooked then 1 else 0

namespace Session.Tally

variable {sink : Sink}
variable {reports : List Report}
variable {met : List Inquiry}

theorem start : Tally .fresh [] [] where
  enabled := by decide
  warned := by decide
  count := rfl

/- An inquiry is counted if it is reported as it should be. -/
theorem add
    (h : Tally sink reports met)
    {next : Sink}
    {new : List Report}
    {inquiry : Inquiry}
    (hEnabled : next.isEnabled .fullSchemaScan = true)
    (hWarned : next.warned.contains .fullSchemaScan =
      (sink.warned.contains .fullSchemaScan ||
        inquiry.unhooked))
    (hCount : new.countP Report.isScan =
      (if inquiry.unanswered then 1 else 0) +
        if inquiry.unhooked &&
            !sink.warned.contains .fullSchemaScan then
          1
        else
          0) :
    Tally next (reports ++ new) (met ++ [inquiry]) where
  enabled := hEnabled
  warned := by
    rw [hWarned, h.warned, List.any_append, List.any_cons,
      List.any_nil, Bool.or_false]
  count := by
    rw [List.countP_append, List.countP_append, h.count, hCount,
      h.warned, List.countP_singleton, List.any_append,
      List.any_cons, List.any_nil, Bool.or_false]
    cases met.any Inquiry.unhooked <;>
      cases inquiry.unhooked <;> simp <;> omega

/- One inquiry adds what it reports. -/
theorem inquiry
    (h : Tally sink reports met)
    (inquiry : Inquiry) :
    Tally (sink.receiveAll inquiry.diagnostics).1
      (reports ++ (sink.receiveAll inquiry.diagnostics).2)
      (met ++ [inquiry]) := by
  have hNull : (AbstractType.nullDiagnostic inquiry.type
      inquiry.value).ids = .fullSchemaScan := rfl
  have hAbsent : (AbstractType.absentDiagnostic
      inquiry.type).ids = .fullSchemaScan := rfl
  rw [inquiry.diagnostics_eq]
  split
  · next hUnanswered =>
      have hHooked := inquiry.unhooked_of_unanswered hUnanswered
      rw [Sink.receiveAll_warn hNull h.enabled]
      refine h.add h.enabled ?_ ?_
      · rw [hHooked, Bool.or_false]
      · rw [hHooked, hUnanswered, List.countP_singleton,
          Report.isScan_of_ids hNull]
        rfl
  · next hAnswered =>
      split
      · next hUnhooked =>
          rw [Sink.receiveAll_warnOnce hAbsent h.enabled]
          split
          · next hWarned =>
              refine h.add h.enabled ?_ ?_
              · rw [hWarned, Bool.true_or]
              · rw [hWarned, Bool.not_true, Bool.and_false,
                  if_neg hAnswered]
                rfl
          · next hWarned =>
              refine h.add h.enabled ?_ ?_
              · rw [hUnhooked, Bool.or_true]
                exact DiagnosticIds.contains_union _ _
              · rw [Bool.eq_false_iff.2 hWarned, hUnhooked,
                  if_neg hAnswered, List.countP_singleton,
                  Report.isScan_of_ids hAbsent]
                rfl
      · next hHooked =>
          have hHooked := Bool.eq_false_iff.2 hHooked
          refine h.add h.enabled ?_ ?_
          · rw [hHooked, Bool.or_false]
            rfl
          · rw [hHooked, if_neg hAnswered]
            rfl

/- Inquiries add what each of them reports. -/
theorem inquiries
    (h : Tally sink reports met)
    (later : List Inquiry) :
    Tally
      (sink.receiveAll (later.flatMap Inquiry.diagnostics)).1
      (reports ++
        (sink.receiveAll (later.flatMap Inquiry.diagnostics)).2)
      (met ++ later) := by
  induction later generalizing sink reports met with
  | nil => simpa [Sink.receiveAll] using h
  | cons first rest ih =>
      have hRest := ih (h.inquiry first)
      rw [List.flatMap_cons, Sink.receiveAll_append]
      simpa only [List.append_assoc, List.singleton_append]
        using hRest

/- Notices add what their diagnostics report. -/
theorem notices
    (h : Tally sink reports met)
    {notices : List Notice}
    {later : List Inquiry}
    (hNotices : notices.filter Notice.isDiagnostic =
      later.flatMap Inquiry.diagnostics) :
    Tally (sink.receiveAll notices).1
      (reports ++ (sink.receiveAll notices).2)
      (met ++ later) := by
  have hLater := h.inquiries later
  rw [← hNotices] at hLater
  rcases sink.receiveAll_diagnostics notices with
    ⟨hSink, hCount⟩
  rw [hSink] at hLater
  refine ⟨hLater.enabled, hLater.warned, ?_⟩
  rw [← hLater.count, List.countP_append, List.countP_append,
    hCount]

end Session.Tally

/- The scans that are reported in a session. -/
theorem Session.tally
    {sink : Sink}
    {reports : List Report}
    {met : List Inquiry}
    (h : Session sink reports met) : Tally sink reports met := by
  induction h with
  | start => exact .start
  | execute _ hAnswer ih =>
      exact ih.notices (Request.diagnostics_of_execute hAnswer)
  | @ask _ _ _ inquiry _ ih =>
      refine ih.notices ?_
      rw [List.flatMap_singleton]
      rfl
  | adjust _ hEnabled ih => exact ⟨hEnabled, ih.warned, ih.count⟩

/-
  The object type of a value of an abstract type is decided by a
  hook that names one, without a hook by the name of a possible
  type that the value carries, and else by the first possible
  type that accepts the value. In a session, a scan is reported
  for every value that a hook has left unanswered, and once if
  any value was scanned without a hook.
-/
theorem AbstractType.decided_and_counted :
    (∀ inquiry : Inquiry, inquiry.type.isAbstract = true →
      inquiry.Decided) ∧
    ∀ sink reports met, Session sink reports met →
      reports.countP Report.isScan =
        met.countP Inquiry.unanswered +
          if met.any Inquiry.unhooked then 1 else 0 :=
  ⟨fun _ => Inquiry.decided, fun _ _ _ h => h.tally.count⟩

------------------------------------------------------------
-- A Catalogue
------------------------------------------------------------

namespace Catalogue

/- Two items that do not name their type. -/
def unnamed : Request :=
  { request with
    rootValue :=
      .object
        [("items",
          .array
            [ .object [("title", .string "A")],
              .object [("title", .string "B")]])] }

/- An item that names its type. -/
def named : Inquiry where
  schema := schema
  hooks := hooks
  type := .defined (.interface item)
  value := .object [("__typename", .string "Book")]
  info := default

/-
  A book that names its type is one. Of four items that do not
  name theirs, in two executions, there is one report.
-/
theorem reported_once :
    named.answer = .ok book ∧
      ∃ sink reports met,
        Session sink reports met ∧
          met.length = 4 ∧
            reports.countP Report.isScan = 1 := by
  rcases AbstractType.decided_and_counted with ⟨hDecided, hCount⟩
  refine ⟨?_, ?_⟩
  · have hBook : book ∈ named.candidates := by
      with_unfolding_all exact List.mem_singleton_self book
    have hCarried := (hDecided named rfl).carried rfl book hBook rfl
    rw [Inquiry.answer, hCarried]
  · have hEnds :
        (unnamed.execute schema hooks 6 requested).isSome =
          true := by
      with_unfolding_all rfl
    rcases Option.isSome_iff_exists.1 hEnds with
      ⟨answer, hAnswer⟩
    have hSession := Session.execute
      (Session.execute .start hAnswer) hAnswer
    refine ⟨_, _, _, hSession, ?_, ?_⟩
    · with_unfolding_all rfl
    · rw [hCount _ _ _ hSession]
      with_unfolding_all rfl

end Catalogue

end GraphQL
