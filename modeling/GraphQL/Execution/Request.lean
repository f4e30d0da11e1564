import GraphQL.Execution.Completion
import GraphQL.Document.ExecutableGrammar

/-
  Requests: the execution of an operation of a document.

  Key definitions include:
    * `Request`, `RequestError`
    * `Request.execute`, `Request.executeText`
-/

------------------------------------------------------------
-- Requests
------------------------------------------------------------

namespace GraphQL

/- What to execute besides the document. -/
structure Request where
  operationName : Option String
  bindings : Entries Json
  rootValue : Json
  resolver : Option Hook
  deriving Repr, Inhabited

/- Why a request can not be executed. -/
inductive RequestError where
  | unreadable
  | unknownOperation (name : String)
  | noOperation
  | ambiguousOperation
  | invalid (error : VariableError) (position : Position)
  | noMutations (position : Position)
  | noSubscriptions (position : Position)
  deriving Repr, Inhabited

namespace RequestError

/- The message of a refused request. -/
def message : RequestError → String
| unreadable => "Syntax Error"
| unknownOperation name =>
    s!"Unknown operation named \"{name}\"."
| noOperation => "Must provide an operation."
| ambiguousOperation =>
    "Must provide operation name if query contains multiple " ++
    "operations."
| invalid error _ => error.message
| noMutations _ => "Schema is not configured for mutations."
| noSubscriptions _ =>
    "Subscription operations are not supported."

/- The place of a refused request, if it has one. -/
def position? : RequestError → Option Position
| invalid _ pos => some pos
| noMutations pos => some pos
| noSubscriptions pos => some pos
| _ => none

/- The form of an error in a response. -/
def report (error : RequestError) : ResponseError :=
  ⟨error.message, error.position?.toList, []⟩

end RequestError

/- A response, and the notices that led to it. -/
structure Run where
  response : Response
  notices : List Notice
  deriving Inhabited

/- The run of a request that is refused. -/
def Run.refusal (errors : List RequestError) : Run :=
  ⟨.refusal (errors.map RequestError.report), []⟩

namespace Request

------------------------------------------------------------
-- Operations
------------------------------------------------------------

/- The operation to execute: the one named, or the only one. -/
def select (request : Request) (operations : List Operation) :
    Except RequestError Operation :=
  match request.operationName with
  | some name =>
      let named? := operations.find? fun operation =>
        operation.name == some name
      match named? with
      | some operation => .ok operation
      | none => .error (.unknownOperation name)
  | none =>
      match operations with
      | [operation] => .ok operation
      | [] => .error .noOperation
      | _ => .error .ambiguousOperation

/- The root type of an operation. -/
def rootType (schema : Schema) (operation : Operation) :
    Except RequestError ObjectType :=
  match operation.kind with
  | .subscription => .error (.noSubscriptions operation.position)
  | kind =>
      match schema.rootType? kind with
      | some type => .ok type
      | none => .error (.noMutations operation.position)

/- The report of an executed operation. -/
def event (operation : Operation) (errors : List FieldError) :
    Trace.Event :=
  ⟨.debug, "executed operation",
    Trace.optional "operation_name" operation.name ++
      [("num_errors", .nat errors.length)]⟩

/- The run of an operation whose selections were executed. -/
def run
    (operation : Operation)
    (outcome : Completed (List (String × Json))) : Run :=
  let data :=
    match outcome.value with
    | some entries => .object entries
    | none => .null
  ⟨⟨outcome.errors.map FieldError.report, some data⟩,
    outcome.notices ++
      [.event (event operation outcome.errors)]⟩

------------------------------------------------------------
-- Execution
------------------------------------------------------------

/- The context of an operation with its coerced variables. -/
def context
    (request : Request)
    (schema : Schema)
    (hooks : Hooks)
    (fuel : Nat)
    (document : ExecutableDocument)
    (operation : Operation)
    (bindings : Entries Json) : ExecutionContext where
  schema := schema
  hooks := hooks
  document := document
  operationName := operation.name
  rootValue := request.rootValue
  bindings := bindings
  resolver := request.resolver
  fuel := fuel

/-
  Execute an operation of a document: select it, coerce its
  variables, find its root type, and execute its selections.
-/
def execute
    (request : Request)
    (schema : Schema)
    (hooks : Hooks)
    (fuel : Nat)
    (document : ExecutableDocument) : Option Run :=
  match request.select document.operations with
  | .error error => some (.refusal [error])
  | .ok operation => do
      let bindings ←
        (Coercion.bindings schema fuel request.bindings
          operation.definitions).run
      match bindings with
      | .error errors =>
          return .refusal
            (errors.map fun error => .invalid error.1 error.2)
      | .ok bindings =>
          match rootType schema operation with
          | .error error => return .refusal [error]
          | .ok object =>
              let context := request.context schema hooks fuel
                document operation bindings
              let outcome ← context.executeSelections fuel []
                object request.rootValue operation.selections
              return run operation outcome

/- Read a document and execute an operation of it. -/
def executeText
    (request : Request)
    (schema : Schema)
    (hooks : Hooks)
    (fuel : Nat)
    (text : String) : Option Run :=
  match ExecutableDocument.read? text with
  | some document =>
      request.execute schema hooks fuel document
  | none => some (.refusal [.unreadable])

end Request

end GraphQL
