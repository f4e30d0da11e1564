import GraphQL.Diagnostics
import GraphQL.Execution.Hooks
import GraphQL.Description.Element

/-
  Descriptions of what happens when schemas are built and
  operations executed.

  Key definitions include:
    * `Description.event`, `Description.diagnostic`
    * `Description.resolveInfo`
-/

------------------------------------------------------------
-- Reports
------------------------------------------------------------

namespace GraphQL

namespace Description

/- The value of a field of an event. -/
def eventValue : Trace.Value → Json
| .bool value => .bool value
| .nat value => .ofNat value
| .text value => .string value

/- An event. -/
def event (event : Trace.Event) : Json :=
  .object
    [ ("level", .string event.level.name),
      ("message", .string event.message),
      ("fields",
        .object (event.fields.map fun field =>
          (field.1, eventValue field.2)))]

/- A diagnostic as its severity, ids and message. -/
def diagnostic (d : Diagnostic) : Json :=
  .array
    [ .string d.severity.name, .ofNat d.ids.bits.toNat,
      .string d.message]

/- What a hook knows about a field. -/
def resolveInfo (info : ResolveInfo) : Json :=
  let path := info.path.map PathSegment.text
  .object
    [ ("field", .string info.field.name),
      ("parent", .string info.parent.name),
      ("path", .string (".".intercalate path)),
      ("operation", text? info.operationName),
      ("return", .string info.field.type.text),
      ("nodes", .ofNat info.nodes.length),
      ("declared_in", .string info.parent.name),
      ("parent_kind", .string TypeKind.object.name)]

end Description

end GraphQL
