import GraphQL.Schema.Basic

/-
  Collection of the fields that a selection set selects for an
  object type.

  Fields are grouped by response key in the order in which the
  keys are first met. A named fragment counts once for each
  selection set; of fragments with one name the last counts.

  Key definitions include:
    * `Selection.isIncluded`
    * `FieldGroup`, `Collected`
    * `Collector.collect`
-/

------------------------------------------------------------
-- Conditions
------------------------------------------------------------

namespace GraphQL

/- The condition of the first annotation of a name. -/
def Annotation.condition?
    (annotations : List Annotation)
    (name : String)
    (bindings : Entries Json) : Option Bool := do
  let annotation ← annotations.find? fun annotation =>
    annotation.name == name
  match ← Entries.get? annotation.arguments "if" with
  | .boolean value => some value
  | .variable name => (← bindings.get? name).bool?
  | _ => none

/- Whether a selection is neither skipped nor left out. -/
def Selection.isIncluded
    (selection : Selection)
    (bindings : Entries Json) : Bool :=
  let condition? (name : String) :=
    Annotation.condition? selection.annotations name bindings
  !(condition? "skip").getD false &&
    (condition? "include").getD true

/- Whether a fragment on a type applies to an object type. -/
def Schema.fragmentApplies
    (schema : Schema)
    (object : ObjectType)
    (condition : String) : Bool :=
  match schema.lookup condition with
  | some (.defined (.object _)) => condition == object.name
  | some type => schema.isPossible object type
  | none => false

/- The fragment of a name. -/
def ExecutableDocument.fragment?
    (document : ExecutableDocument)
    (name : String) : Option Fragment :=
  document.fragments.reverse.find? fun fragment =>
    fragment.name == name

------------------------------------------------------------
-- Groups
------------------------------------------------------------

/- Fields that share a response key. -/
structure FieldGroup where
  key : String
  first : FieldNode
  rest : List FieldNode
  deriving Repr, Inhabited

/- All fields of a group. -/
def FieldGroup.nodes (group : FieldGroup) : List FieldNode :=
  group.first :: group.rest

/- Add a field to the group of its key, or as a new group. -/
def FieldGroup.add (key : String) (node : FieldNode) :
    List FieldGroup → List FieldGroup
| [] => [⟨key, node, []⟩]
| group :: groups =>
    if group.key = key then
      { group with rest := group.rest ++ [node] } :: groups
    else
      group :: add key node groups

/- What has been collected, and the fragments met so far. -/
structure Collected where
  groups : List FieldGroup
  visited : List String
  deriving Repr, Inhabited

/- Add a field under its response key. -/
def Collected.addField (done : Collected) (node : FieldNode) :
    Collected :=
  { done with
    groups := FieldGroup.add node.head.responseKey node
      done.groups }

------------------------------------------------------------
-- Collection
------------------------------------------------------------

/- What decides which fields are collected. -/
structure Collector where
  schema : Schema
  document : ExecutableDocument
  bindings : Entries Json
  object : ObjectType

namespace Collector

mutual

/- Collect from one selection, given how to enter fragments. -/
def collectOne
    (self : Collector)
    (enter : Fragment → Collected → Collected) :
    Selection → Collected → Collected
| .field head selections, done =>
    if (Selection.field head selections).isIncluded
        self.bindings then
      done.addField ⟨head, selections⟩
    else
      done
| .spread head, done =>
    if !(Selection.spread head).isIncluded self.bindings ||
        done.visited.contains head.name then
      done
    else
      let done := { done with
        visited := head.name :: done.visited }
      match self.document.fragment? head.name with
      | none => done
      | some fragment =>
          if self.schema.fragmentApplies self.object
              fragment.condition then
            enter fragment done
          else
            done
| .inline head selections, done =>
    let applies :=
      match head.condition with
      | some condition =>
          self.schema.fragmentApplies self.object condition
      | none => true
    if (Selection.inline head selections).isIncluded
        self.bindings && applies then
      collectAll self enter selections done
    else
      done

/- Collect from selections in order. -/
def collectAll
    (self : Collector)
    (enter : Fragment → Collected → Collected) :
    List Selection → Collected → Collected
| [], done => done
| selection :: rest, done =>
    collectAll self enter rest
      (collectOne self enter selection done)

end

/-
  Collect, entering fragments to some depth. As no fragment is
  entered twice, their number is depth enough.
-/
def collectWithin (self : Collector) :
    (depth : Nat) → List Selection → Collected → Collected
| 0, selections, done =>
    collectAll self (fun _ done => done) selections done
| depth + 1, selections, done =>
    collectAll self
      (fun fragment done =>
        collectWithin self depth fragment.selections done)
      selections done

/- The fields that selections select, grouped by key. -/
def collect (self : Collector) (selections : List Selection) :
    List FieldGroup :=
  (collectWithin self self.document.fragments.length selections
    ⟨[], []⟩).groups

end Collector

end GraphQL
