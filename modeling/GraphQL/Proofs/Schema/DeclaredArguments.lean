import Mathlib.Data.List.Induction
import GraphQL.Proofs.Schema.Closed
import GraphQL.Proofs.Schema.Giving
import GraphQL.Proofs.Schema.Mentions
import GraphQL.Proofs.Schema.Touched
import GraphQL.Proofs.Schema.Upholding

/-
  Arguments that documents declare.

  A field or directive of a schema has the arguments that a
  document declares for it, in the order in which they are
  written. Of two arguments with one name only the later one is
  left, at the place of the earlier one. Arguments of fields
  have names that are not reserved, and input types. Nothing
  like this is asked of the arguments of directives.

  Key definitions include:
    * `Entries.KeepsLast`
    * `Pass.Loads`: the documents that a pass takes
    * `TypeSystemDefinition.WritesField`

  Main declarations:
    * `Entries.keepsLast_ofList`
    * `Schema.arguments_as_written`
    * `Lost.argument_overwritten`
-/

------------------------------------------------------------
-- Entries
------------------------------------------------------------

namespace GraphQL

namespace Entries

variable {α : Type}

/-
  Entries that keep each name of a list once, in the order of
  the first places, with the last value.
-/
structure KeepsLast
    (entries : Entries α)
    (written : List (String × α)) : Prop where
  names_eq : entries.names = (written.map Prod.fst).eraseDups
  get?_eq : ∀ before pair after,
    written = before ++ pair :: after →
    pair.1 ∉ after.map Prod.fst →
    entries.get? pair.1 = some pair.2

/- Distinct names are none of them dropped. -/
theorem eraseDups_of_nodup
    {names : List String}
    (h : names.Nodup) : names.eraseDups = names := by
  induction names with
  | nil => rfl
  | cons name rest ih =>
      rw [List.nodup_cons] at h
      have hRest : (rest.filter fun other => !other == name) =
          rest := by
        rw [List.filter_eq_self]
        intro other hOther
        have hName : other ≠ name := fun hSame =>
          h.1 (hSame ▸ hOther)
        simpa using hName
      rw [List.eraseDups_cons, hRest, ih h.2]

/- Entries are given by their names and what is found there. -/
theorem eq_of_get?
    {entries written : Entries α}
    (hNames : entries.names = written.map Prod.fst)
    (hNodup : (written.map Prod.fst).Nodup)
    (h : ∀ pair ∈ written, entries.get? pair.1 = some pair.2) :
    entries = written := by
  induction written generalizing entries with
  | nil => simpa [names] using hNames
  | cons pair rest ih =>
      cases entries with
      | nil => cases hNames
      | cons entry others =>
          rcases entry with ⟨name, value⟩
          rcases pair with ⟨_, given⟩
          simp only [names, List.map_cons, List.cons.injEq]
            at hNames
          rcases hNames with ⟨rfl, hOthers⟩
          rw [List.map_cons, List.nodup_cons] at hNodup
          have hValue := h _ List.mem_cons_self
          simp only [get?, if_true, Option.some.injEq] at hValue
          rw [hValue]
          congr 1
          apply ih hOthers hNodup.2
          intro other hOther
          have hName : name ≠ other.1 := by
            rintro rfl
            exact hNodup.1 (List.mem_map.2 ⟨other, hOther, rfl⟩)
          have hFound := h other (List.mem_cons_of_mem _ hOther)
          simpa [get?, hName] using hFound

theorem insertAll_append
    (entries : Entries α)
    (pairs more : List (String × α)) :
    insertAll entries (pairs ++ more) =
      insertAll (insertAll entries pairs) more :=
  List.foldl_append

/- Other names leave what is stored under a name alone. -/
theorem get?_insertAll_of_not_mem
    {entries : Entries α}
    {pairs : List (String × α)}
    {name : String}
    (h : name ∉ pairs.map Prod.fst) :
    (insertAll entries pairs).get? name = entries.get? name := by
  induction pairs generalizing entries with
  | nil => rfl
  | cons pair rest ih =>
      rw [List.map_cons, List.mem_cons, not_or] at h
      have hNext : insertAll entries (pair :: rest) =
          insertAll (insert entries pair.1 pair.2) rest := rfl
      rw [hNext, ih h.2]
      exact get?_insert_of_ne entries pair.2 fun hSame =>
        h.1 hSame.symm

/- Names are stored in the order in which they first appear. -/
theorem names_ofList (pairs : List (String × α)) :
    (ofList pairs).names = (pairs.map Prod.fst).eraseDups := by
  induction pairs using List.reverseRecOn with
  | nil => rfl
  | append_singleton pairs pair ih =>
      have hLast : ofList (pairs ++ [pair]) =
          insert (ofList pairs) pair.1 pair.2 :=
        insertAll_append [] pairs [pair]
      rw [hLast, names_insert, ih, List.map_append,
        List.eraseDups_append]
      by_cases hMem : pair.1 ∈ pairs.map Prod.fst
      · simp [List.mem_eraseDups, hMem, List.removeAll]
      · simp [List.mem_eraseDups, hMem, List.removeAll,
          List.eraseDups_cons]

/- A list of pairs is stored so. -/
theorem keepsLast_ofList (pairs : List (String × α)) :
    (ofList pairs).KeepsLast pairs where
  names_eq := names_ofList pairs
  get?_eq := by
    rintro before pair after rfl hLast
    have hStored : ofList (before ++ pair :: after) =
        insertAll (insert (ofList before) pair.1 pair.2) after :=
      insertAll_append [] before (pair :: after)
    rw [hStored, get?_insertAll_of_not_mem hLast,
      get?_insert_self]

namespace KeepsLast

variable {entries : Entries α} {written : List (String × α)}

/- No name is kept twice. -/
theorem nodup (h : entries.KeepsLast written) :
    entries.names.Nodup := by
  rw [h.names_eq]
  exact nodup_eraseDups _

theorem mem_names
    (h : entries.KeepsLast written)
    {name : String}
    (hName : name ∈ entries.names) :
    name ∈ written.map Prod.fst := by
  rw [h.names_eq] at hName
  exact List.mem_eraseDups.1 hName

/- If no name is repeated, all is kept as it is written. -/
theorem eq_of_nodup
    (h : entries.KeepsLast written)
    (hNodup : (written.map Prod.fst).Nodup) :
    entries = written := by
  have hNames : entries.names = written.map Prod.fst := by
    rw [h.names_eq, eraseDups_of_nodup hNodup]
  apply eq_of_get? hNames hNodup
  intro pair hPair
  rcases List.append_of_mem hPair with ⟨before, after, rfl⟩
  rw [List.map_append, List.map_cons, List.nodup_append]
    at hNodup
  exact h.get?_eq before pair after rfl
    (List.nodup_cons.1 hNodup.2.1).1

end KeepsLast

end Entries

------------------------------------------------------------
-- Documents
------------------------------------------------------------

namespace Pass

/-
  One pass follows from another by taking documents. A text
  stands in the file it comes from, or in one of its own.
-/
inductive Loads (start : Pass) :
    List (Option String × TypeSystemDocument) → Pass → Prop where
  | start : Loads start [] start
  | load {documents : List (Option String × TypeSystemDocument)}
      {pass next : Pass} {file : Option String}
      {document : TypeSystemDocument} :
      Loads start documents pass →
      pass.load file document = .ok next →
      Loads start (documents ++ [(file, document)]) next
  | loadText
      {documents : List (Option String × TypeSystemDocument)}
      {pass next : Pass} {path? : Option String} {text : String}
      {document : TypeSystemDocument} :
      Loads start documents pass →
      TypeSystemDocument.read? text = some document →
      pass.loadText path? text = .ok next →
      Loads start
        (documents ++
          [(some (path?.getD ("str://" ++ toString pass.unnamed)),
            document)])
        next

/- A text is taken like its document. -/
theorem load_of_loadText
    {pass next : Pass}
    {path? : Option String}
    {text : String}
    {document : TypeSystemDocument}
    (hRead : TypeSystemDocument.read? text = some document)
    (h : pass.loadText path? text = .ok next) :
    ∃ unnamed, { pass with unnamed := unnamed }.load
      (some (path?.getD ("str://" ++ toString pass.unnamed)))
      document = .ok next := by
  simp only [loadText, hRead] at h
  exact ⟨_, h⟩

/-
  What one definition brings about is there in the end, if
  documents leave it alone.
-/
theorem Loads.reaches
    {start pass : Pass}
    {documents : List (Option String × TypeSystemDocument)}
    (h : start.Loads documents pass)
    (Property : Draft.Stage → List Directive → Prop)
    {file : Option String}
    {document : TypeSystemDocument}
    (hDocument : (file, document) ∈ documents)
    (hReach : ∀ {pass next : Pass},
      pass.load file document = .ok next →
      Property next.stage next.directives)
    (hKept : ∀ {pass next : Pass} {file document},
      pass.load file document = .ok next →
      Property pass.stage pass.directives →
      Property next.stage next.directives) :
    Property pass.stage pass.directives := by
  induction h with
  | start => cases hDocument
  | load _ hNext ih =>
      rcases List.mem_append.1 hDocument with hBefore | hLast
      · exact hKept hNext (ih hBefore)
      · cases List.mem_singleton.1 hLast
        exact hReach hNext
  | loadText _ hRead hNext ih =>
      rcases load_of_loadText hRead hNext with ⟨_, hLoad⟩
      rcases List.mem_append.1 hDocument with hBefore | hLast
      · exact hKept hLoad (ih hBefore)
      · cases List.mem_singleton.1 hLast
        exact hReach hLoad

end Pass

------------------------------------------------------------
-- Fields
------------------------------------------------------------

namespace Declared

variable {type field : String} {location : SourceLocation}

/-
  Arguments as they are written: in order, and none has the name
  of another one. All are there if no name is repeated; of
  several with one name the last is.
-/
structure KeepsArguments
    (location : SourceLocation)
    (definitions : List InputValueDefinition)
    (arguments : Entries InputValue) : Prop where
  keepsLast :
    arguments.KeepsLast (definitions.map (named location))
  nodup : arguments.names.Nodup
  eq_of_nodup :
    (definitions.map InputValueDefinition.name).Nodup →
    arguments = definitions.map (named location)

theorem keepsArguments_ofList
    (location : SourceLocation)
    (definitions : List InputValueDefinition) :
    KeepsArguments location definitions
      (Entries.ofList (definitions.map (named location))) := by
  have hLast :=
    Entries.keepsLast_ofList (definitions.map (named location))
  refine ⟨hLast, hLast.nodup, fun hNodup => ?_⟩
  apply hLast.eq_of_nodup
  simpa [named, Function.comp_def] using hNodup

variable {definition : FieldDefinition}

/- A field with the arguments that its definition writes. -/
structure Writes
    (location : SourceLocation)
    (definition : FieldDefinition)
    (field : OutputField) : Prop where
  arguments :
    KeepsArguments location definition.arguments field.arguments
  notReserved : ∀ argument ∈ field.arguments,
    Name.isReserved argument.1 = false

theorem Defines.writes
    {entry : String × OutputField}
    (h : Defines type location definition entry) :
    entry.1 = definition.name ∧
      Writes location definition entry.2 := by
  rcases h with ⟨given, hGiven, rfl⟩
  rcases arguments_eq_ok_iff.1 hGiven with ⟨hReserved, rfl⟩
  have hKeeps :=
    keepsArguments_ofList location definition.arguments
  refine ⟨rfl, hKeeps, fun argument hArgument => ?_⟩
  have hWritten :=
    hKeeps.keepsLast.mem_names (List.mem_map_of_mem hArgument)
  rw [List.map_map] at hWritten
  rcases List.mem_map.1 hWritten with ⟨written, hMem, hName⟩
  rw [← hName]
  exact hReserved written hMem

/- Each field is stored under its name. -/
theorem exists_get?_of_fields
    {definitions : List FieldDefinition}
    {result : Entries OutputField}
    (h : fields type location definitions = .ok result)
    (hDefinition : definition ∈ definitions) :
    ∃ field, result.get? definition.name = some field ∧
      Writes location definition field := by
  rcases fields_eq_ok_iff.1 h with ⟨hNodup, -, hAll⟩
  clear h
  induction hAll with
  | nil => cases hDefinition
  | @cons first entry rest others hEntry _ ih =>
      rcases entry with ⟨name, field⟩
      rcases hEntry.writes with ⟨rfl, hWrites⟩
      rw [List.map_cons, List.nodup_cons] at hNodup
      rcases List.mem_cons.1 hDefinition with rfl | hRest
      · exact ⟨field, by simp [Entries.get?], hWrites⟩
      · have hName : first.name ≠ definition.name := fun hSame =>
          hNodup.1 (hSame ▸ List.mem_map_of_mem hRest)
        rcases ih hRest hNodup.2 with ⟨found, hFound, hWrites⟩
        exact
          ⟨found, by simpa [Entries.get?, hName] using hFound,
            hWrites⟩

end Declared

namespace TypeDef

variable {type next : TypeDef} {location : SourceLocation}

/- A type with a field that has the arguments written for it. -/
def HasWritten
    (location : SourceLocation)
    (definition : FieldDefinition)
    (type : TypeDef) : Prop :=
  ∃ field, type.fields.get? definition.name = some field ∧
    Declared.Writes location definition field

/- Fields that are added have the arguments written there. -/
theorem exists_written_of_append
    {name : String}
    {definition : FieldDefinition}
    {definitions : List FieldDefinition}
    {body added : Entries OutputField}
    (hFields : Declared.fields name location definitions =
      .ok added)
    (hFresh : Fresh body.names added.names)
    (hDefinition : definition ∈ definitions) :
    ∃ field,
      Entries.get? (body ++ added) definition.name =
          some field ∧
        Declared.Writes location definition field := by
  rcases Declared.exists_get?_of_fields hFields hDefinition with
    ⟨field, hField, hWrites⟩
  have hName : definition.name ∈ added.names :=
    List.mem_map_of_mem (Entries.mem_of_get? hField)
  have hNone := (Declared.get?_eq_none_iff body _).2
    (hFresh.not_mem _ hName)
  refine ⟨field, ?_, hWrites⟩
  rw [Entries.get?_append, hNone, Option.none_or, hField]

/- A definition gives its fields to its type. -/
theorem hasWritten_ofDefinition
    {definition : TypeDefinition}
    (h : ofDefinition location definition = .ok type)
    {field : FieldDefinition}
    (hField : field ∈ definition.content.fields) :
    type.HasWritten location field := by
  cases ofDefinition_eq_ok_iff.1 h with
  | object hContent hBody _ =>
      rw [hContent] at hField
      exact Declared.exists_get?_of_fields hBody hField
  | interface hContent hBody _ _ =>
      rw [hContent] at hField
      exact Declared.exists_get?_of_fields hBody hField
  | scalar hContent | union hContent _
  | enum hContent _ _ | inputObject hContent _ =>
      rw [hContent] at hField
      cases hField

/- An extension gives its fields to the type it extends. -/
theorem Extends.hasWritten
    {extension : TypeExtension}
    (h : Extends location extension type next)
    {field : FieldDefinition}
    (hField : field ∈ extension.content.fields) :
    next.HasWritten location field := by
  cases h with
  | object hContent hFields hAdmits =>
      rw [hContent] at hField
      exact exists_written_of_append hFields hAdmits.fields hField
  | interface hContent hFields _ hAdmits =>
      rw [hContent] at hField
      exact exists_written_of_append hFields hAdmits.fields hField
  | scalar hContent =>
      rw [hContent] at hField
      cases hField
  | union hContent _ =>
      rw [hContent] at hField
      cases hField
  | enum hContent _ =>
      rw [hContent] at hField
      cases hField
  | inputObject hContent _ _ =>
      rw [hContent] at hField
      cases hField

/- Extensions leave the fields that are there alone. -/
theorem hasWritten_keptByExtension
    {definition : FieldDefinition} :
    KeptByExtension (HasWritten location definition) := by
  rintro place extension type next hExtends
    ⟨field, hField, hWrites⟩
  have hAdded : ∀ added : Entries OutputField,
      Entries.get? (type.fields ++ added) definition.name =
        some field := by
    intro added
    rw [Entries.get?_append, hField, Option.some_or]
  refine ⟨field, ?_, hWrites⟩
  cases hExtends with
  | object _ _ _ => exact hAdded _
  | interface _ _ _ _ => exact hAdded _
  | _ => cases hField

end TypeDef

/-
  A definition or an extension in a document writes a field for
  a type. It stands at a location.
-/
inductive TypeSystemDefinition.WritesField
    (file : Option String) :
    TypeSystemDefinition → (type : String) →
      SourceLocation → FieldDefinition → Prop where
  | type {definition : TypeDefinition}
      {field : FieldDefinition} :
      field ∈ definition.content.fields →
      WritesField file (.type definition) definition.name
        (.ofSchema file definition.position) field
  | extension {extension : TypeExtension}
      {field : FieldDefinition} :
      field ∈ extension.content.fields →
      WritesField file (.extension extension) extension.name
        (.ofSchema file extension.position) field

/- A document leaves what is given alone. -/
theorem Pass.gives_kept_by_load
    {pass next : Pass}
    {file : Option String}
    {document : TypeSystemDocument}
    {type : String}
    {location : SourceLocation}
    {field : FieldDefinition}
    (h : pass.load file document = .ok next)
    (hGives : pass.stage.Gives type
      (TypeDef.HasWritten location field)) :
    next.stage.Gives type
      (TypeDef.HasWritten location field) := by
  have hStep : ∀ (stage : Draft.Stage) definition stage',
      Draft.takeStage file stage definition = .ok stage' →
      stage.Gives type (TypeDef.HasWritten location field) →
      stage'.Gives type (TypeDef.HasWritten location field) :=
    fun _ _ _ hNext hStage =>
      hStage.takeStage TypeDef.hasWritten_keptByExtension hNext
  exact Results.foldlM_keeps hStep (of_load h).1 hGives

/- A document gives the fields that it writes to their types. -/
theorem Pass.gives_of_load
    {pass next : Pass}
    {file : Option String}
    {document : TypeSystemDocument}
    (h : pass.load file document = .ok next)
    {definition : TypeSystemDefinition}
    (hDefinition : definition ∈ document)
    {type : String}
    {location : SourceLocation}
    {field : FieldDefinition}
    (hField : definition.WritesField file type location field) :
    next.stage.Gives type
      (TypeDef.HasWritten location field) := by
  have hReach : ∀ stage stage',
      Draft.takeStage file stage definition = .ok stage' →
      Draft.Stage.Gives stage' type
        (TypeDef.HasWritten location field) := by
    intro stage stage' hNext
    cases hField with
    | type hMem =>
        exact Draft.Stage.gives_of_type hNext fun _ hType =>
          TypeDef.hasWritten_ofDefinition hType hMem
    | extension hMem =>
        exact Draft.Stage.gives_of_extension hNext
          fun hExtends => hExtends.hasWritten hMem
  exact Results.foldlM_reaches hDefinition hReach
    (fun _ _ _ hNext hGives =>
      hGives.takeStage TypeDef.hasWritten_keptByExtension hNext)
    (of_load h).1

------------------------------------------------------------
-- Directives
------------------------------------------------------------

namespace Pass

variable {file : Option String} {name : String}
variable {known all : List Directive}

/- Directives that are added leave the others alone. -/
theorem find?_of_takeDirective
    {definition : TypeSystemDefinition}
    {directive : Directive}
    (h : takeDirective file known definition = .ok all)
    (hKnown : (known.find? fun directive =>
      directive.name == name) = some directive) :
    (all.find? fun directive => directive.name == name) =
      some directive := by
  cases definition with
  | directive definition =>
      rcases takeDirective_directive_eq_ok_iff.1 h with ⟨-, rfl⟩
      rw [List.find?_append, hKnown, Option.some_or]
  | _ =>
      cases h
      exact hKnown

/- A directive is found as it is defined. -/
theorem find?_of_takeDirective_self
    {definition : DirectiveDefinition}
    (h : takeDirective file known (.directive definition) =
      .ok all) :
    (all.find? fun directive =>
        directive.name == definition.name) =
      some (.custom
        (customDirective (.ofSchema file definition.position)
          definition)) := by
  rcases takeDirective_directive_eq_ok_iff.1 h with
    ⟨hAdmits, rfl⟩
  have hNone : (known.find? fun directive =>
      directive.name == definition.name) = none := by
    simpa using hAdmits.isNew
  rw [List.find?_append, hNone, Option.none_or]
  simp [Directive.name, customDirective]

/- A document adds the directives that it defines. -/
theorem find?_of_load
    {pass next : Pass}
    {document : TypeSystemDocument}
    (h : pass.load file document = .ok next)
    {definition : DirectiveDefinition}
    (hDefinition : .directive definition ∈ document) :
    (next.directives.find? fun directive =>
        directive.name == definition.name) =
      some (.custom
        (customDirective (.ofSchema file definition.position)
          definition)) :=
  Results.foldlM_reaches hDefinition
    (fun _ _ hNext => find?_of_takeDirective_self hNext)
    (fun _ _ _ hNext hFound =>
      find?_of_takeDirective hNext hFound)
    (of_load h).2

/- A document leaves the directives that are there alone. -/
theorem find?_kept_by_load
    {pass next : Pass}
    {document : TypeSystemDocument}
    (h : pass.load file document = .ok next)
    {directive : Directive}
    (hFound : (pass.directives.find? fun directive =>
      directive.name == name) = some directive) :
    (next.directives.find? fun directive =>
      directive.name == name) = some directive :=
  Results.foldlM_keeps
    (fun _ _ _ hNext hFound =>
      find?_of_takeDirective hNext hFound)
    (of_load h).2 hFound

end Pass

------------------------------------------------------------
-- Schemas
------------------------------------------------------------

namespace Schema

variable {base? : Option Schema}
variable {documents : List (Option String × TypeSystemDocument)}
variable {pass : Pass} {schema : Schema}
variable {file : Option String} {document : TypeSystemDocument}

/- Arguments of the fields of a schema have input types. -/
theorem hasInput_of_build
    {decorator? : Option Decorator}
    {name key : String}
    {type : TypeDef}
    {field : OutputField}
    (hBuild : pass.build decorator? = .ok schema)
    (hType : schema.lookup name = some (.defined type))
    (hField : type.fields.get? key = some field) :
    ∀ argument ∈ field.arguments,
      schema.types.HasInput argument.2.type.innermost := by
  rcases Pass.exists_assemble_of_build hBuild with
    ⟨graph, hAssemble⟩
  have hClosed := (closed_of_assemble hAssemble).types
  have hMem : .defined type ∈ schema.types.types :=
    TypeGraph.mem_of_lookup hType
  have hEntry := Entries.mem_of_get? hField
  cases type with
  | object type => exact hClosed.arguments _ hMem _ rfl _ hEntry
  | interface type =>
      exact hClosed.arguments _ hMem _ rfl _ hEntry
  | _ => cases hEntry

/- A field that a document writes is in the schema. -/
theorem exists_field_as_written
    (hPass : (Pass.fromBase base?).Loads documents pass)
    (hBuild : pass.build none = .ok schema)
    (hDocument : (file, document) ∈ documents)
    {definition : TypeSystemDefinition}
    (hDefinition : definition ∈ document)
    {type : String}
    {location : SourceLocation}
    {field : FieldDefinition}
    (hField : definition.WritesField file type location field) :
    ∃ found,
      schema.lookup type = some (.defined found) ∧
        found.HasWritten location field := by
  have hGives : pass.stage.Gives type
      (TypeDef.HasWritten location field) :=
    hPass.reaches
      (fun stage _ => stage.Gives type
        (TypeDef.HasWritten location field))
      hDocument
      (fun hLoad => Pass.gives_of_load hLoad hDefinition hField)
      (fun hLoad hBefore => Pass.gives_kept_by_load hLoad hBefore)
  exact exists_of_gives TypeDef.hasWritten_keptByExtension
    hBuild hGives

/- So is a directive that a document defines. -/
theorem exists_directive_as_written
    (hPass : (Pass.fromBase base?).Loads documents pass)
    (hBuild : pass.build none = .ok schema)
    (hDocument : (file, document) ∈ documents)
    {definition : DirectiveDefinition}
    (hDefinition : .directive definition ∈ document) :
    ∃ directive,
      schema.directive? definition.name =
          some (.custom directive) ∧
        Declared.KeepsArguments
          (.ofSchema file definition.position)
          definition.arguments directive.arguments := by
  let directive := Pass.customDirective
    (.ofSchema file definition.position) definition
  have hFound : (pass.directives.find? fun directive =>
      directive.name == definition.name) =
        some (.custom directive) :=
    hPass.reaches
      (fun _ directives =>
        (directives.find? fun directive =>
          directive.name == definition.name) =
            some (.custom directive))
      hDocument
      (fun hLoad => Pass.find?_of_load hLoad hDefinition)
      (fun hLoad hBefore =>
        Pass.find?_kept_by_load hLoad hBefore)
  rcases Pass.exists_assemble_of_build hBuild with
    ⟨graph, hAssemble⟩
  rcases Pass.assemble_eq_ok_iff.1 hAssemble with
    ⟨-, hDirectives, -⟩
  refine ⟨directive, ?_, Declared.keepsArguments_ofList _ _⟩
  rw [directive?, hDirectives, Pass.allDirectives,
    List.find?_append, hFound, Option.some_or]

/-
  Documents that build or extend a schema find their arguments
  in it as they are written, but for arguments of one field or
  directive with one name, of which the last is left. Arguments
  of fields have input types and names that are not reserved.
-/
theorem arguments_as_written
    (hPass : (Pass.fromBase base?).Loads documents pass)
    (hSchema : (Pass.finishFrom base? pass none).result =
      .ok schema)
    (hDocument : (file, document) ∈ documents) :
    (∀ definition ∈ document, ∀ {type location field},
        definition.WritesField file type location field →
        ∃ found given,
          schema.lookup type = some (.defined found) ∧
            found.fields.get? field.name = some given ∧
            Declared.KeepsArguments location field.arguments
              given.arguments ∧
            ∀ argument ∈ given.arguments,
              Name.isReserved argument.1 = false ∧
                schema.types.HasInput
                  argument.2.type.innermost) ∧
      ∀ definition, .directive definition ∈ document →
        ∃ directive,
          schema.directive? definition.name =
              some (.custom directive) ∧
            Declared.KeepsArguments
              (.ofSchema file definition.position)
              definition.arguments directive.arguments := by
  have hBuild : pass.build none = .ok schema :=
    (Pass.finishFrom_eq base? pass none).2.symm.trans hSchema
  constructor
  · intro definition hDefinition type location field hField
    rcases exists_field_as_written hPass hBuild hDocument
        hDefinition hField with
      ⟨found, hLookup, given, hGiven, hWrites⟩
    have hInput := hasInput_of_build hBuild hLookup hGiven
    refine
      ⟨found, given, hLookup, hGiven, hWrites.arguments, ?_⟩
    intro argument hArgument
    exact
      ⟨hWrites.notReserved argument hArgument,
        hInput argument hArgument⟩
  · intro definition hDefinition
    exact exists_directive_as_written hPass hBuild hDocument
      hDefinition

end Schema

------------------------------------------------------------
-- A Catalogue
------------------------------------------------------------

namespace Catalogue

/- The argument for the first page is there as it is written. -/
theorem first_as_written :
    (Pass.fromBase none).Loads [(none, document)] pass ∧
      (Pass.finishFrom none pass none).result = .ok schema ∧
      ∃ found given,
        schema.lookup "Book" = some (.defined found) ∧
          found.fields.get? "pages" = some given ∧
          given.arguments =
            [Declared.named place
              ⟨position, none, "first", .named "Int",
                some (.int 2), []⟩] := by
  have hPass :
      (Pass.fromBase none).Loads [(none, document)] pass :=
    .load .start load_document
  have hSchema :
      (Pass.finishFrom none pass none).result = .ok schema :=
    build_pass
  rcases (Schema.arguments_as_written hPass hSchema
      List.mem_cons_self).1
      _ (List.mem_cons_of_mem _ List.mem_cons_self)
      (.type (by
        simp only [TypeContent.fields]
        exact List.mem_cons_of_mem _
          (List.mem_cons_of_mem _ List.mem_cons_self))) with
    ⟨found, given, hLookup, hGiven, hKeeps, -⟩
  exact
    ⟨hPass, hSchema, found, given, hLookup, hGiven,
      hKeeps.eq_of_nodup (by simp)⟩

end Catalogue

------------------------------------------------------------
-- Lost Arguments
------------------------------------------------------------

/-
  A field and a directive with two arguments of one name. Some
  arguments have a type that is not defined.
-/
namespace Lost

open Catalogue

def argument (name type : String) : InputValueDefinition :=
  ⟨position, none, name, .named type, none, []⟩

/- The field. -/
def sum : FieldDefinition :=
  { declared "sum" (.named "Int") with
    arguments := [argument "of" "Missing", argument "of" "Int"] }

/- The directive; one of its arguments has a reserved name. -/
def marked : DirectiveDefinition :=
  ⟨position, none, "marked",
    [ argument "__as" "Missing", argument "by" "Int",
      argument "by" "String"],
    false, ["FIELD"]⟩

def document : TypeSystemDocument :=
  [ .directive marked,
    .type ⟨position, none, "Query", [], .object [] [sum]⟩]

/- The arguments that a schema has of the two. -/
def arguments (schema : Schema) : List (Entries InputValue) :=
  let field? := (schema.object? "Query").bind fun type =>
    type.field? "sum"
  (field?.map OutputField.arguments).toList ++
    ((schema.directive? "marked").map
      Directive.arguments).toList

/- The document builds, and an argument of each is gone. -/
theorem argument_overwritten :
    ∃ pass schema,
      Pass.empty.load none document = .ok pass ∧
        pass.build none = .ok schema ∧
        arguments schema =
          [ [Declared.named place (argument "of" "Int")],
            [ Declared.named place (argument "__as" "Missing"),
              Declared.named place (argument "by" "String")]] ∧
        schema.types.contains "Missing" = false := by
  have hBuilt : (do
      let pass ← Pass.empty.load none document
      let schema ← pass.build none
      return (arguments schema,
        schema.types.contains "Missing")) =
      .ok
        ([ [Declared.named place (argument "of" "Int")],
            [ Declared.named place (argument "__as" "Missing"),
              Declared.named place (argument "by" "String")]],
          false) := by
    with_unfolding_all rfl
  rcases Schema.exists_of_document hBuilt with
    ⟨pass, schema, hPass, hSchema, hSeen⟩
  rcases Prod.mk.inj hSeen with ⟨hArguments, hMissing⟩
  exact ⟨pass, schema, hPass, hSchema, hArguments, hMissing⟩

end Lost

end GraphQL
