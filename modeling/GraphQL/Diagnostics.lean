import GraphQL.Trace

/-
  Diagnostics that are raised while operations are executed.

  A sink lets a diagnostic through when one of its ids is
  enabled. A diagnostic that is raised once is let through only
  if it carries an id that no earlier such diagnostic carried.

  Key definitions include:
    * `DiagnosticIds`: a set of ids
    * `Sink`, `Sink.warn`, `Sink.warnOnce`
    * `Diagnostic.event`
-/

------------------------------------------------------------
-- Ids
------------------------------------------------------------

namespace GraphQL

/- A set of diagnostic ids, one bit each. -/
structure DiagnosticIds where
  bits : BitVec 32
  deriving DecidableEq, Repr, Inhabited

namespace DiagnosticIds

def empty : DiagnosticIds := ⟨0⟩

def assign : DiagnosticIds := ⟨2⟩

def config : DiagnosticIds := ⟨4⟩

/- Resolution of an abstract type asked every possible type. -/
def fullSchemaScan : DiagnosticIds := ⟨8⟩

def configDeprecation : DiagnosticIds := ⟨16⟩

def notAType : DiagnosticIds := ⟨32⟩

def all : DiagnosticIds := ⟨63⟩

/- The set a name stands for; unknown names stand for none. -/
def ofName (name : String) : DiagnosticIds :=
  match name with
  | "ASSIGN" => assign
  | "CONFIG" => config
  | "FULL_SCHEMA_SCAN" => fullSchemaScan
  | "CONFIG_DEPRECATION" => configDeprecation
  | "NOT_A_TYPE" => notAType
  | "ALL" => all
  | _ => empty

/- The ids in either set. -/
def union (a b : DiagnosticIds) : DiagnosticIds :=
  ⟨a.bits ||| b.bits⟩

/- The ids of the first set that are not in the second. -/
def diff (a b : DiagnosticIds) : DiagnosticIds :=
  ⟨a.bits &&& ~~~b.bits⟩

/- Whether two sets have an id in common. -/
def intersects (a b : DiagnosticIds) : Bool :=
  a.bits &&& b.bits != 0

/- Whether the first set has every id of the second. -/
def contains (a b : DiagnosticIds) : Bool :=
  a.bits &&& b.bits == b.bits

end DiagnosticIds

------------------------------------------------------------
-- Diagnostics
------------------------------------------------------------

/- How loudly a diagnostic is reported. -/
inductive Severity where
  | deprecated
  | notice
  | warning
  deriving DecidableEq, Repr, Inhabited

/- The name of a severity. -/
def Severity.name : Severity → String
| deprecated => "Deprecated"
| notice => "Notice"
| warning => "Warning"

/- The severity with a name; other names stand for a warning. -/
def Severity.ofName : String → Severity
| "Deprecated" => deprecated
| "Notice" => notice
| _ => warning

/- A diagnostic. -/
structure Diagnostic where
  message : String
  ids : DiagnosticIds
  severity : Severity
  deriving DecidableEq, Repr, Inhabited

/- The event that reports a diagnostic. -/
def Diagnostic.event (d : Diagnostic) : Trace.Event :=
  let ids := ("diagnostic_id", Trace.Value.nat d.ids.bits.toNat)
  match d.severity with
  | .warning => ⟨.warn, d.message, [ids]⟩
  | severity =>
      ⟨.info, d.message,
        [ids, ("severity", .text severity.name)]⟩

------------------------------------------------------------
-- Sinks
------------------------------------------------------------

/- The ids that are enabled, and those that were raised once. -/
structure Sink where
  enabled : DiagnosticIds
  warned : DiagnosticIds
  deriving DecidableEq, Repr, Inhabited

namespace Sink

/- A sink on which every known id is enabled. -/
def fresh : Sink :=
  ⟨.all, .empty⟩

def enable (sink : Sink) (ids : DiagnosticIds) : Sink :=
  { sink with enabled := sink.enabled.union ids }

def enableAll (sink : Sink) : Sink :=
  { sink with enabled := .all }

def suppress (sink : Sink) (ids : DiagnosticIds) : Sink :=
  { sink with enabled := sink.enabled.diff ids }

def suppressAll (sink : Sink) : Sink :=
  { sink with enabled := .empty }

/- Whether any of the given ids is enabled. -/
def isEnabled (sink : Sink) (ids : DiagnosticIds) : Bool :=
  sink.enabled.intersects ids

/- Raise a diagnostic; the answer tells whether it passes. -/
def warn (sink : Sink) (ids : DiagnosticIds) : Sink × Bool :=
  (sink, sink.isEnabled ids)

/-
  Raise a diagnostic that is reported once. Suppressed ones do
  not use up the chance.
-/
def warnOnce (sink : Sink) (ids : DiagnosticIds) :
    Sink × Bool :=
  if !sink.isEnabled ids then
    (sink, false)
  else if sink.warned.contains ids then
    (sink, false)
  else
    ({ sink with warned := sink.warned.union ids }, true)

end Sink

------------------------------------------------------------
-- Notices
------------------------------------------------------------

/- What an execution has to say besides its response. -/
inductive Notice where
  | warn (diagnostic : Diagnostic)
  | warnOnce (diagnostic : Diagnostic)
  | event (event : Trace.Event)
  deriving DecidableEq, Repr, Inhabited

/- What becomes of a notice: a report, or nothing. -/
inductive Report where
  | diagnostic (diagnostic : Diagnostic)
  | event (event : Trace.Event)
  deriving DecidableEq, Repr, Inhabited

namespace Sink

/- Pass one notice through a sink. -/
def receive (sink : Sink) : Notice → Sink × List Report
| .event e => (sink, [.event e])
| .warn d =>
    let (sink, passes) := sink.warn d.ids
    (sink, if passes then [.diagnostic d] else [])
| .warnOnce d =>
    let (sink, passes) := sink.warnOnce d.ids
    (sink, if passes then [.diagnostic d] else [])

/- Pass notices through a sink in order. -/
def receiveAll (sink : Sink) :
    List Notice → Sink × List Report
| [] => (sink, [])
| notice :: rest =>
    let (sink, now) := sink.receive notice
    let (sink, later) := receiveAll sink rest
    (sink, now ++ later)

end Sink

/- The event of a report. -/
def Report.toEvent : Report → Trace.Event
| diagnostic d => d.event
| event e => e

end GraphQL
