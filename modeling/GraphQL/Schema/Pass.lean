import GraphQL.Schema.Basic
import GraphQL.Schema.Draft
import GraphQL.Document.TypeSystemGrammar

/-
  Passes: what is collected before a schema is built.

  A pass starts empty or from a schema that it extends. It
  takes documents and types in turn. Extensions of types that
  are not known yet wait for the end of the pass.

  Key definitions include:
    * `Pass`, `Pass.empty`, `Pass.ofSchema`
    * `Pass.define`, `Pass.load`, `Pass.loadText`
    * `Pass.settle`: apply the extensions that waited
-/

------------------------------------------------------------
-- Passes
------------------------------------------------------------

namespace GraphQL

/- What a pass has collected. -/
structure Pass where
  extending : Bool
  draft : Draft
  directives : List Directive
  roots : Roots
  waiting : List (SourceLocation × TypeExtension)
  unnamed : Nat
  deriving Inhabited

namespace Pass

/- A pass that starts from nothing. -/
def empty : Pass :=
  ⟨false, [], [], ⟨none, none, none⟩, [], 0⟩

/- A pass that extends a schema. -/
def ofSchema (schema : Schema) : Pass where
  extending := true
  draft := .ofGraph schema.types
  directives := schema.directives
  roots := schema.roots
  waiting := []
  unnamed := 0

/- Add a type. -/
def define (pass : Pass) (type : TypeDef) :
    Except BuildError Pass := do
  return { pass with draft := ← pass.draft.define type }

/- Extend a type, or let the extension wait. -/
def extend
    (pass : Pass)
    (location : SourceLocation)
    (extension : TypeExtension) : Except BuildError Pass := do
  match ← pass.draft.extend? location extension with
  | some draft => return { pass with draft := draft }
  | none =>
      return { pass with
        waiting := pass.waiting ++ [(location, extension)] }

------------------------------------------------------------
-- Directives
------------------------------------------------------------

/- The directive of a definition. -/
def customDirective
    (location : SourceLocation)
    (definition : DirectiveDefinition) : CustomDirective where
  name := definition.name
  location := location
  description := definition.description
  arguments := Entries.ofList
    (definition.arguments.map fun argument =>
      let place := location.moved argument.position
      (argument.name, Declared.inputValue place argument))
  repeatable := definition.repeatable
  locations := definition.locations

/- Add a directive whose name is free. -/
def defineDirective
    (pass : Pass)
    (location : SourceLocation)
    (definition : DirectiveDefinition) :
    Except BuildError Pass :=
  let name := definition.name
  let isBuiltin := BuiltinDirective.all.any fun directive =>
    directive.name == name
  let known := pass.directives.find? fun directive =>
    directive.name == name
  if isBuiltin then
    .error (.builtinDirective name location)
  else if Name.isReserved name then
    .error (.reservedDirective name location)
  else
    match known with
    | some first =>
        .error (.duplicateDirective name first.location location)
    | none =>
        let directive := customDirective location definition
        .ok { pass with
          directives := pass.directives ++ [.custom directive] }

------------------------------------------------------------
-- Root Types
------------------------------------------------------------

/- Name the root type of a kind of operation once. -/
def declareRoot
    (location : SourceLocation)
    (roots : Roots)
    (operation : OperationKind)
    (type? : Option String) : Except BuildError Roots :=
  match type? with
  | none => .ok roots
  | some type =>
      let ref : RootReference := ⟨type, location⟩
      match roots.get? operation with
      | some first =>
          .error (.duplicateOperation operation first ref)
      | none => .ok (roots.set ref operation)

/- Refuse two kinds of operation with one root type. -/
def checkDistinct
    (roots : Roots)
    (first second : OperationKind) : Except BuildError Unit :=
  match roots.get? first, roots.get? second with
  | some a, some b =>
      if a.type = b.type then
        .error
          (.sharedRoot a.type first a.location second b.location)
      else
        .ok ()
  | _, _ => .ok ()

/- Take the root types that a schema block names. -/
def declareRoots
    (pass : Pass)
    (location : SourceLocation)
    (block : SchemaBlock) : Except BuildError Pass := do
  if pass.extending then
    throw (.schemaBlockInExtension location)
  let roots ← declareRoot location pass.roots .query block.query
  let roots ← declareRoot location roots .mutation block.mutation
  let roots ←
    declareRoot location roots .subscription block.subscription
  checkDistinct roots .query .mutation
  checkDistinct roots .query .subscription
  checkDistinct roots .mutation .subscription
  return { pass with roots := roots }

------------------------------------------------------------
-- Documents
------------------------------------------------------------

/- Take one definition of a document. -/
def take
    (file : Option String)
    (pass : Pass)
    (definition : TypeSystemDefinition) :
    Except BuildError Pass :=
  match definition with
  | .schema block =>
      pass.declareRoots (.ofSchema file block.position) block
  | .type definition => do
      let location :=
        SourceLocation.ofSchema file definition.position
      pass.define (← TypeDef.ofDefinition location definition)
  | .extension extension =>
      pass.extend (.ofSchema file extension.position) extension
  | .directive definition =>
      pass.defineDirective
        (.ofSchema file definition.position) definition

/- Take the definitions of a document in order. -/
def load
    (pass : Pass)
    (file : Option String)
    (document : TypeSystemDocument) : Except BuildError Pass :=
  document.foldlM (take file) pass

/-
  Read and take a document. A text without a path is known by
  the number of such texts before it.
-/
def loadText
    (pass : Pass)
    (path? : Option String)
    (text : String) : Except BuildError Pass :=
  let file := path?.getD ("str://" ++ toString pass.unnamed)
  let unnamed :=
    if path?.isSome then pass.unnamed else pass.unnamed + 1
  match TypeSystemDocument.read? text with
  | some document =>
      { pass with unnamed := unnamed }.load (some file) document
  | none => .error (.unreadable file)

------------------------------------------------------------
-- Waiting Extensions
------------------------------------------------------------

/- The order in which waiting extensions are applied. -/
def settlingOrder : List TypeKind :=
  [.enum, .inputObject, .interface, .object, .scalar, .union]

/- Apply an extension that waited; now its type has to exist. -/
def settleOne
    (draft : Draft)
    (waiting : SourceLocation × TypeExtension) :
    Except BuildError Draft := do
  match ← draft.extend? waiting.1 waiting.2 with
  | some draft => return draft
  | none =>
      throw (.extensionOfUndefined waiting.2.name waiting.1)

/- The waiting extensions, kind by kind. -/
def settlingList (pass : Pass) :
    List (SourceLocation × TypeExtension) :=
  settlingOrder.flatMap fun kind =>
    pass.waiting.filter fun waiting =>
      waiting.2.content.kind == kind

/- The draft after all extensions. -/
def settle (pass : Pass) : Except BuildError Draft :=
  pass.settlingList.foldlM settleOne pass.draft

/- The directives with the built-in ones that are missing. -/
def allDirectives (pass : Pass) : List Directive :=
  let missing := BuiltinDirective.all.filter fun builtin =>
    !pass.directives.any fun directive =>
      directive.name == builtin.name
  pass.directives ++ missing.map Directive.builtin

end Pass

end GraphQL
