import GraphQL.Document.Literal
import GraphQL.Json.Record

/-
  Responses of executed operations, and their JSON form.

  A response without data tells of a request that was not
  executed; data that is null tells of an error that reached
  the root.

  Key definitions include:
    * `PathSegment`, `ResponseError`, `Response`
    * `Response.toJson`, `Response.ofJson?`
-/

------------------------------------------------------------
-- Responses
------------------------------------------------------------

namespace GraphQL

/- A step from a value of a response to a value within it. -/
inductive PathSegment where
  | key (name : String)
  | index (position : Nat)
  deriving DecidableEq, Repr, Inhabited

/- The text of a step. -/
def PathSegment.text : PathSegment → String
| key name => name
| index position => toString position

/- An error with its places in the document and the response. -/
structure ResponseError where
  message : String
  locations : List Position
  path : List PathSegment
  deriving DecidableEq, Repr, Inhabited

/- The outcome of a request. -/
structure Response where
  errors : List ResponseError
  data : Option Json
  deriving Repr, Inhabited

/- The response to a request that can not be executed. -/
def Response.refusal (errors : List ResponseError) : Response :=
  ⟨errors, none⟩

------------------------------------------------------------
-- Writing
------------------------------------------------------------

/- A place as a record. -/
def Position.toJson (pos : Position) : Json :=
  .object
    [("line", .ofNat pos.line), ("column", .ofNat pos.column)]

/- A step as a string or a number. -/
def PathSegment.toJson : PathSegment → Json
| key name => .string name
| index position => .ofNat position

/- An error as a record. -/
def ResponseError.toJson (error : ResponseError) : Json :=
  .object
    (("message", .string error.message) ::
      (Json.nonEmptyField "locations" Position.toJson
          error.locations ++
        Json.nonEmptyField "path" PathSegment.toJson error.path))

/- A response as a record. -/
def Response.toJson (response : Response) : Json :=
  let data :=
    match response.data with
    | some value => [("data", value)]
    | none => []
  .object
    (Json.nonEmptyField "errors" ResponseError.toJson
        response.errors ++ data)

------------------------------------------------------------
-- Reading
------------------------------------------------------------

/- Read a place. -/
def Position.ofJson? (value : Json) : Option Position := do
  match ← value.slots? ["line", "column"] 2 with
  | [some line, some column] =>
      return ⟨← line.readNat?, ← column.readNat?⟩
  | _ => none

/- Read a step. -/
def PathSegment.ofJson? : Json → Option PathSegment
| .string name => some (key name)
| value => value.readNat?.map index

/- Read an error. Only the message has to be there. -/
def ResponseError.ofJson? (value : Json) :
    Option ResponseError := do
  match ← value.slots? ["message", "locations", "path"] 1 with
  | [some message, locations, path] =>
      let message ← message.readString?
      let locations ←
        Json.readListOr? Position.ofJson? locations
      let path ← Json.readListOr? PathSegment.ofJson? path
      return ⟨message, locations, path⟩
  | _ => none

/- Read a response. Null is read as no data. -/
def Response.ofJson? (value : Json) : Option Response := do
  match ← value.slots? ["errors", "data"] 0 with
  | [errors, data] =>
      let errors ←
        Json.readListOr? ResponseError.ofJson? errors
      let data := data.filter fun value => !value.isNull
      return ⟨errors, data⟩
  | _ => none

end GraphQL
