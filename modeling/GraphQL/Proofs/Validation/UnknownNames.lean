import Mathlib.Data.List.Forall2
import Mathlib.Data.List.Induction
import GraphQL.Validation.KnownTypeNames

/-
  The rule of known type names finds each unknown name once.

  A document refers to types at places. A place leads from the
  whole to a part by the numbers of the parts on the way, and
  places are in lexicographic order: a whole comes before its
  parts, and a part before the next one. The rule has an error
  for each place with an unknown name, in this order, and no
  others.

  Key definitions include:
    * `Places.Before`, `Places.Lists`
    * `TypeExpr.Wraps`
    * `ExecutableDefinition.Refers`, `Selection.Refers`
    * `TypeSystemDefinition.Refers`, `TypeContent.Refers`
    * `KnownTypeNames.Known`, `KnownTypeNames.Blames`

  Main declarations:
    * `KnownTypeNames.reports_unknown_names`
-/

------------------------------------------------------------
-- Places
------------------------------------------------------------

namespace GraphQL

open KnownTypeNames (Reference)

/- Which references stand at which places. -/
abbrev Places :=
  List Nat → Reference → Prop

namespace Places

/- The order of places in a document. -/
abbrev Before : List Nat → List Nat → Prop :=
  List.Lex (· < ·)

/- The references at all places, one for each, in order. -/
def Lists (places : Places) (refs : List Reference) : Prop :=
  ∃ listed : List (List Nat × Reference),
    listed.Pairwise (fun a b => Before a.1 b.1) ∧
      (∀ place ref,
        (place, ref) ∈ listed ↔ places place ref) ∧
      listed.map Prod.snd = refs

/- Places in the part of a number. -/
def Under (k : Nat) (places : Places) : Places :=
  fun place ref => ∃ rest, place = k :: rest ∧ places rest ref

/- Places in the parts of a list, by their numbers. -/
def InParts {α : Type} (parts : List α) (Part : α → Places) :
    Places :=
  fun place ref => ∃ (k : Nat) (part : α),
    parts[k]? = some part ∧ Under k (Part part) place ref

/- A name that belongs to the whole. -/
def Own (name : String) (position : Position) : Places :=
  fun place ref => place = [] ∧ ref = ⟨name, position⟩

/- A name that belongs to the whole, if there is one. -/
def OwnIf (name? : Option String) (position : Position) :
    Places :=
  fun place ref =>
    ∃ name, name? = some name ∧ Own name position place ref

variable {places others : Places}
variable {refs otherRefs : List Reference}

theorem Lists.congr
    (h : places.Lists refs)
    (hSame : ∀ place ref, others place ref ↔ places place ref) :
    others.Lists refs := by
  rcases h with ⟨listed, hOrder, hMem, hRefs⟩
  exact ⟨listed, hOrder,
    fun place ref => (hMem place ref).trans (hSame place ref).symm,
    hRefs⟩

theorem Lists.nil
    (h : ∀ place ref, ¬ places place ref) : places.Lists [] :=
  ⟨[], .nil,
    fun place ref => iff_of_false List.not_mem_nil (h place ref),
    rfl⟩

theorem Lists.own (name : String) (position : Position) :
    (Own name position).Lists [⟨name, position⟩] := by
  refine ⟨[([], ⟨name, position⟩)], List.pairwise_singleton _ _,
    fun place ref => ?_, rfl⟩
  rw [List.mem_singleton, Prod.mk.injEq]
  rfl

theorem Lists.ownIf
    (name? : Option String)
    (position : Position) :
    (OwnIf name? position).Lists
      (name?.toList.map fun name => ⟨name, position⟩) := by
  cases name? with
  | none => exact Lists.nil fun place ref => nofun
  | some name =>
      refine (Lists.own name position).congr fun place ref => ?_
      exact ⟨fun ⟨_, rfl, h⟩ => h, fun h => ⟨name, rfl, h⟩⟩

/- Within one part the order is that of the part. -/
theorem Lists.under
    (h : places.Lists refs)
    (k : Nat) : (Under k places).Lists refs := by
  rcases h with ⟨listed, hOrder, hMem, hRefs⟩
  refine ⟨listed.map fun entry => (k :: entry.1, entry.2), ?_,
    fun place ref => ?_, ?_⟩
  · exact List.pairwise_map.2
      (hOrder.imp fun hBefore => .cons hBefore)
  · simp only [List.mem_map, Prod.mk.injEq, Prod.exists, Under]
    constructor
    · rintro ⟨rest, ref, hEntry, rfl, rfl⟩
      exact ⟨rest, rfl, (hMem rest ref).1 hEntry⟩
    · rintro ⟨rest, rfl, hRest⟩
      exact ⟨rest, ref, (hMem rest ref).2 hRest, rfl, rfl⟩
  · rw [List.map_map, ← hRefs]
    rfl

/- Places that come one after the other. -/
theorem Lists.append
    (h : places.Lists refs)
    (h' : others.Lists otherRefs)
    (hOrder : ∀ place ref place' ref', places place ref →
      others place' ref' → Before place place') :
    Lists (fun place ref => places place ref ∨ others place ref)
      (refs ++ otherRefs) := by
  rcases h with ⟨listed, hSorted, hMem, hRefs⟩
  rcases h' with ⟨listed', hSorted', hMem', hRefs'⟩
  refine ⟨listed ++ listed', ?_, fun place ref => ?_, ?_⟩
  · refine List.pairwise_append.2 ⟨hSorted, hSorted', ?_⟩
    intro a hLeft b hRight
    exact hOrder _ _ _ _ ((hMem a.1 a.2).1 hLeft)
      ((hMem' b.1 b.2).1 hRight)
  · rw [List.mem_append, hMem, hMem']
  · rw [List.map_append, hRefs, hRefs']

/- Parts come in the order of their numbers. -/
theorem before_of_under
    {j k : Nat}
    {place place' : List Nat}
    {ref ref' : Reference}
    (hLess : j < k)
    (h : Under j places place ref)
    (h' : Under k others place' ref') : Before place place' := by
  rcases h with ⟨rest, rfl, -⟩
  rcases h' with ⟨rest', rfl, -⟩
  exact .rel hLess

/- One part after another. -/
theorem Lists.under_append
    {j k : Nat}
    (h : (Under j places).Lists refs)
    (h' : (Under k others).Lists otherRefs)
    (hLess : j < k) :
    Lists (fun place ref =>
        Under j places place ref ∨ Under k others place ref)
      (refs ++ otherRefs) :=
  h.append h' fun _ _ _ _ => before_of_under hLess

/- What belongs to the whole comes before its parts. -/
theorem Lists.own_append
    {α : Type}
    {parts : List α}
    {Part : α → Places}
    (h : (InParts parts Part).Lists refs)
    (name? : Option String)
    (position : Position) :
    Lists (fun place ref =>
        OwnIf name? position place ref ∨
          InParts parts Part place ref)
      ((name?.toList.map fun name => ⟨name, position⟩) ++
        refs) := by
  refine (Lists.ownIf name? position).append h ?_
  rintro place ref place' ref' ⟨name, -, rfl, -⟩
    ⟨k, part, -, rest, rfl, -⟩
  exact .nil

/- The parts of a list are read from the first to the last. -/
theorem Lists.parts
    {α : Type}
    {parts : List α}
    {Part : α → Places}
    {partRefs : α → List Reference}
    (h : ∀ part ∈ parts, (Part part).Lists (partRefs part)) :
    (InParts parts Part).Lists (parts.flatMap partRefs) := by
  induction parts using List.reverseRecOn with
  | nil =>
      refine Lists.nil fun place ref => ?_
      rintro ⟨k, part, hPart, -⟩
      simp at hPart
  | append_singleton parts last ih =>
      have hEarlier := ih fun part hPart =>
        h part (List.mem_append_left _ hPart)
      have hLast := (h last (by simp)).under parts.length
      rw [List.flatMap_append, List.flatMap_singleton]
      refine (hEarlier.append hLast ?_).congr fun place ref => ?_
      · rintro place ref place' ref' ⟨k, part, hPart, hUnder⟩
        exact before_of_under
          (List.getElem?_eq_some_iff.1 hPart).1 hUnder
      · constructor
        · rintro ⟨k, part, hPart, hUnder⟩
          rcases Nat.lt_trichotomy k parts.length with
            hLess | rfl | hMore
          · rw [List.getElem?_append_left hLess] at hPart
            exact .inl ⟨k, part, hPart, hUnder⟩
          · rw [List.getElem?_concat_length] at hPart
            cases hPart
            exact .inr hUnder
          · rw [List.getElem?_eq_none (by simp; omega)] at hPart
            cases hPart
        · rintro (⟨k, part, hPart, hUnder⟩ | hUnder)
          · have hLess := (List.getElem?_eq_some_iff.1 hPart).1
            exact ⟨k, part,
              (List.getElem?_append_left hLess).trans hPart,
              hUnder⟩
          · exact ⟨parts.length, last,
              List.getElem?_concat_length, hUnder⟩

/- Each part of a list with one name of its own. -/
theorem Lists.names
    {α : Type}
    (parts : List α)
    (name : α → String)
    (position : α → Position) :
    (InParts parts fun part =>
      Own (name part) (position part)).Lists
      (parts.map fun part => ⟨name part, position part⟩) := by
  rw [List.map_eq_flatMap]
  exact Lists.parts fun part _ =>
    Lists.own (name part) (position part)

/- There is one list of the references at all places. -/
theorem Lists.iff_eq
    (h : places.Lists refs) :
    places.Lists otherRefs ↔ otherRefs = refs := by
  refine ⟨?_, fun hEq => hEq ▸ h⟩
  rintro ⟨listed', hOrder', hMem', rfl⟩
  rcases h with ⟨listed, hOrder, hMem, rfl⟩
  have hNodup (entries : List (List Nat × Reference))
      (hSorted : entries.Pairwise
        fun a b => Before a.1 b.1) : entries.Nodup := by
    refine hSorted.imp fun {a b} hBefore hEq => ?_
    rw [hEq] at hBefore
    exact List.lex_irrefl Nat.lt_irrefl b.1 hBefore
  have hPerm : listed'.Perm listed :=
    (List.perm_ext_iff_of_nodup (hNodup _ hOrder')
      (hNodup _ hOrder)).2
      fun entry => (hMem' entry.1 entry.2).trans
        (hMem entry.1 entry.2).symm
  have hAsymm (a b : List Nat × Reference)
      (hBefore : Before a.1 b.1)
      (hAfter : Before b.1 a.1) : a = b :=
    absurd hAfter (List.lex_asymm Nat.lt_asymm hBefore)
  rw [hPerm.eq_of_pairwise (fun a b _ _ => hAsymm a b) hOrder'
    hOrder]

/- The references that a test lets through stay in order. -/
theorem Lists.filter
    (h : places.Lists refs)
    (keep : Reference → Bool) :
    Lists (fun place ref => places place ref ∧ keep ref = true)
      (refs.filter keep) := by
  rcases h with ⟨listed, hOrder, hMem, rfl⟩
  refine ⟨listed.filter fun entry => keep entry.2,
    hOrder.filter _, fun place ref => ?_, ?_⟩
  · rw [List.mem_filter, hMem]
  · rw [List.filter_map]
    rfl

end Places

------------------------------------------------------------
-- Types As Written
------------------------------------------------------------

/- A type expression has a name below its wrappers. -/
inductive TypeExpr.Wraps : TypeExpr → String → Prop where
  | named (name : String) : Wraps (.named name) name
  | list {inner : TypeExpr} {name : String}
      (h : Wraps inner name) : Wraps (.list inner) name
  | nonNull {inner : TypeExpr} {name : String}
      (h : Wraps inner name) : Wraps (.nonNull inner) name

theorem TypeExpr.wraps_innermost :
    (type : TypeExpr) → type.Wraps type.innermost
| .named name => .named name
| .list inner => .list (wraps_innermost inner)
| .nonNull inner => .nonNull (wraps_innermost inner)

theorem TypeExpr.Wraps.eq_innermost
    {type : TypeExpr}
    {name : String}
    (h : type.Wraps name) : name = type.innermost := by
  induction h with
  | named name => rfl
  | list _ ih => exact ih
  | nonNull _ ih => exact ih

------------------------------------------------------------
-- Executable Documents
------------------------------------------------------------

/-
  Selections refer to the types that inline fragments are for,
  at any depth.
-/
inductive Selection.Refers : Selection → Places where
  | condition {head : InlineHead} {selections : List Selection}
      {name : String}
      (hName : head.condition = some name) :
      Refers (.inline head selections) [] ⟨name, head.position⟩
  | inField {head : FieldHead} {selections : List Selection}
      {k : Nat} {selection : Selection} {place : List Nat}
      {ref : Reference}
      (hPart : selections[k]? = some selection)
      (h : Refers selection place ref) :
      Refers (.field head selections) (k :: place) ref
  | inInline {head : InlineHead} {selections : List Selection}
      {k : Nat} {selection : Selection} {place : List Nat}
      {ref : Reference}
      (hPart : selections[k]? = some selection)
      (h : Refers selection place ref) :
      Refers (.inline head selections) (k :: place) ref

/-
  Operations refer to the types of their variables, and
  fragments to the type that they are for. Selections follow.
-/
inductive ExecutableDefinition.Refers :
    ExecutableDefinition → Places where
  | variable {operation : Operation} {k : Nat}
      {declared : VariableDefinition} {name : String}
      (hPart : operation.definitions[k]? = some declared)
      (hType : declared.type.Wraps name) :
      Refers (.operation operation) [0, k]
        ⟨name, declared.position⟩
  | selection {operation : Operation} {k : Nat}
      {selection : Selection} {place : List Nat}
      {ref : Reference}
      (hPart : operation.selections[k]? = some selection)
      (h : selection.Refers place ref) :
      Refers (.operation operation) (1 :: k :: place) ref
  | condition (fragment : Fragment) :
      Refers (.fragment fragment) []
        ⟨fragment.condition, fragment.position⟩
  | inFragment {fragment : Fragment} {k : Nat}
      {selection : Selection} {place : List Nat}
      {ref : Reference}
      (hPart : fragment.selections[k]? = some selection)
      (h : selection.Refers place ref) :
      Refers (.fragment fragment) (k :: place) ref

/- The places of a document are those of its definitions. -/
def ExecutableDocument.Refers (document : ExecutableDocument) :
    Places :=
  Places.InParts document ExecutableDefinition.Refers

------------------------------------------------------------
-- Type System Documents
------------------------------------------------------------

/-
  Types with fields refer to their interfaces, to the types of
  the fields and to those of arguments.
-/
inductive FieldsRefer
    (position : Position)
    (interfaces : List String)
    (fields : List FieldDefinition) : Places where
  | interface {k : Nat} {name : String}
      (hPart : interfaces[k]? = some name) :
      FieldsRefer position interfaces fields [0, k]
        ⟨name, position⟩
  | field {k : Nat} {field : FieldDefinition} {name : String}
      (hPart : fields[k]? = some field)
      (hType : field.type.Wraps name) :
      FieldsRefer position interfaces fields [1, k]
        ⟨name, field.position⟩
  | argument {j k : Nat} {field : FieldDefinition}
      {argument : InputValueDefinition} {name : String}
      (hField : fields[j]? = some field)
      (hPart : field.arguments[k]? = some argument)
      (hType : argument.type.Wraps name) :
      FieldsRefer position interfaces fields [1, j, k]
        ⟨name, argument.position⟩

/-
  Unions refer to their members, and input objects to the types
  of their fields. Scalars and enums refer to nothing.
-/
inductive TypeContent.Refers (position : Position) :
    TypeContent → Places where
  | object {interfaces : List String}
      {fields : List FieldDefinition} {place : List Nat}
      {ref : Reference}
      (h : FieldsRefer position interfaces fields place ref) :
      Refers position (.object interfaces fields) place ref
  | interface {interfaces : List String}
      {fields : List FieldDefinition} {place : List Nat}
      {ref : Reference}
      (h : FieldsRefer position interfaces fields place ref) :
      Refers position (.interface interfaces fields) place ref
  | member {members : List String} {k : Nat} {name : String}
      (hPart : members[k]? = some name) :
      Refers position (.union members) [k] ⟨name, position⟩
  | inputField {fields : List InputValueDefinition} {k : Nat}
      {field : InputValueDefinition} {name : String}
      (hPart : fields[k]? = some field)
      (hType : field.type.Wraps name) :
      Refers position (.inputObject fields) [k]
        ⟨name, field.position⟩

/-
  Schema blocks refer to root types, definitions and extensions
  to what their content refers to, and directives to the types
  of their arguments.
-/
inductive TypeSystemDefinition.Refers :
    TypeSystemDefinition → Places where
  | query {block : SchemaBlock} {name : String}
      (hRoot : block.query = some name) :
      Refers (.schema block) [0] ⟨name, block.position⟩
  | mutation {block : SchemaBlock} {name : String}
      (hRoot : block.mutation = some name) :
      Refers (.schema block) [1] ⟨name, block.position⟩
  | subscription {block : SchemaBlock} {name : String}
      (hRoot : block.subscription = some name) :
      Refers (.schema block) [2] ⟨name, block.position⟩
  | type {definition : TypeDefinition} {place : List Nat}
      {ref : Reference}
      (h : definition.content.Refers definition.position place
        ref) :
      Refers (.type definition) place ref
  | extension {extension : TypeExtension} {place : List Nat}
      {ref : Reference}
      (h : extension.content.Refers extension.position place
        ref) :
      Refers (.extension extension) place ref
  | argument {directive : DirectiveDefinition} {k : Nat}
      {argument : InputValueDefinition} {name : String}
      (hPart : directive.arguments[k]? = some argument)
      (hType : argument.type.Wraps name) :
      Refers (.directive directive) [k] ⟨name, argument.position⟩

/- The places of a document are those of its definitions. -/
def TypeSystemDocument.Refers (document : TypeSystemDocument) :
    Places :=
  Places.InParts document TypeSystemDefinition.Refers

------------------------------------------------------------
-- References Of Executable Documents
------------------------------------------------------------

namespace KnownTypeNames

open Places

theorem selectionsReferences_eq_flatMap
    (selections : List Selection) :
    selectionsReferences selections =
      selections.flatMap selectionReferences := by
  induction selections with
  | nil => rfl
  | cons selection rest ih =>
      rw [selectionsReferences, ih, List.flatMap_cons]

theorem refers_field_iff
    {head : FieldHead}
    {selections : List Selection}
    {place : List Nat}
    {ref : Reference} :
    (Selection.field head selections).Refers place ref ↔
      InParts selections Selection.Refers place ref := by
  constructor
  · rintro ⟨⟩
    next hPart h => exact ⟨_, _, hPart, _, rfl, h⟩
  · rintro ⟨k, selection, hPart, rest, rfl, h⟩
    exact .inField hPart h

theorem refers_inline_iff
    {head : InlineHead}
    {selections : List Selection}
    {place : List Nat}
    {ref : Reference} :
    (Selection.inline head selections).Refers place ref ↔
      OwnIf head.condition head.position place ref ∨
        InParts selections Selection.Refers place ref := by
  constructor
  · rintro (hName | - | ⟨hPart, h⟩)
    · exact .inl ⟨_, hName, rfl, rfl⟩
    · exact .inr ⟨_, _, hPart, _, rfl, h⟩
  · rintro (⟨name, hName, rfl, rfl⟩ |
      ⟨k, selection, hPart, rest, rfl, h⟩)
    · exact .condition hName
    · exact .inInline hPart h

mutual

/- A selection is read with what is nested in it. -/
theorem lists_selection :
    (selection : Selection) →
      Lists selection.Refers (selectionReferences selection)
| .field head selections => by
    rw [selectionReferences, selectionsReferences_eq_flatMap]
    exact (Lists.parts (lists_selections selections)).congr
      fun _ _ => refers_field_iff
| .spread spread => Lists.nil fun _ _ => nofun
| .inline head selections => by
    rw [selectionReferences, selectionsReferences_eq_flatMap]
    exact ((Lists.parts (lists_selections selections)).own_append
      head.condition head.position).congr
      fun _ _ => refers_inline_iff

theorem lists_selections :
    (selections : List Selection) →
      ∀ selection ∈ selections,
        Lists selection.Refers (selectionReferences selection)
| [], _, hMem => nomatch hMem
| first :: rest, selection, hMem => by
    rcases List.mem_cons.1 hMem with hFirst | hRest
    · exact hFirst ▸ lists_selection first
    · exact lists_selections rest selection hRest

end

theorem refers_operation_iff
    {operation : Operation}
    {place : List Nat}
    {ref : Reference} :
    (ExecutableDefinition.operation operation).Refers place
        ref ↔
      Under 0 (InParts operation.definitions fun declared =>
          Own declared.type.innermost declared.position)
        place ref ∨
      Under 1 (InParts operation.selections Selection.Refers)
        place ref := by
  constructor
  · rintro (⟨hPart, hType⟩ | ⟨hPart, h⟩)
    · cases hType.eq_innermost
      exact .inl ⟨_, rfl, _, _, hPart, _, rfl, rfl, rfl⟩
    · exact .inr ⟨_, rfl, _, _, hPart, _, rfl, h⟩
  · rintro (⟨_, rfl, k, declared, hPart, _, rfl, rfl, rfl⟩ |
      ⟨_, rfl, k, selection, hPart, rest, rfl, h⟩)
    · exact .variable hPart declared.type.wraps_innermost
    · exact .selection hPart h

theorem refers_fragment_iff
    {fragment : Fragment}
    {place : List Nat}
    {ref : Reference} :
    (ExecutableDefinition.fragment fragment).Refers place ref ↔
      OwnIf (some fragment.condition) fragment.position place
          ref ∨
        InParts fragment.selections Selection.Refers place
          ref := by
  constructor
  · rintro (- | - | - | ⟨hPart, h⟩)
    · exact .inl ⟨_, rfl, rfl, rfl⟩
    · exact .inr ⟨_, _, hPart, _, rfl, h⟩
  · rintro (⟨_, ⟨⟩, rfl, rfl⟩ |
      ⟨k, selection, hPart, rest, rfl, h⟩)
    · exact .condition fragment
    · exact .inFragment hPart h

/- A definition is read from its head to its selections. -/
theorem lists_definition (definition : ExecutableDefinition) :
    Lists definition.Refers (definitionReferences definition) := by
  cases definition with
  | operation operation =>
      rw [definitionReferences, selectionsReferences_eq_flatMap]
      have hVariables := Lists.names operation.definitions
        (fun declared => declared.type.innermost)
        VariableDefinition.position
      have hSelections :=
        Lists.parts (lists_selections operation.selections)
      exact ((hVariables.under 0).under_append
        (hSelections.under 1) (by decide)).congr
        fun _ _ => refers_operation_iff
  | fragment fragment =>
      rw [definitionReferences, selectionsReferences_eq_flatMap]
      have hSelections :=
        Lists.parts (lists_selections fragment.selections)
      exact (hSelections.own_append (some fragment.condition)
        fragment.position).congr fun _ _ => refers_fragment_iff

/- All names of an executable document, in order. -/
theorem lists_executable (document : ExecutableDocument) :
    Lists document.Refers (executableReferences document) :=
  Lists.parts fun definition _ => lists_definition definition

------------------------------------------------------------
-- References Of Type System Documents
------------------------------------------------------------

theorem lists_inputs (values : List InputValueDefinition) :
    Lists
      (InParts values fun value =>
        Own value.type.innermost value.position)
      (inputReferences values) :=
  Lists.names values (fun value => value.type.innermost)
    InputValueDefinition.position

/- A field with its arguments. -/
def FieldRefers (field : FieldDefinition) : Places :=
  fun place ref =>
    OwnIf (some field.type.innermost) field.position place ref ∨
      InParts field.arguments (fun argument =>
        Own argument.type.innermost argument.position) place ref

theorem lists_fields (fields : List FieldDefinition) :
    Lists (InParts fields FieldRefers)
      (fieldReferences fields) :=
  Lists.parts fun field _ =>
    (lists_inputs field.arguments).own_append
      (some field.type.innermost) field.position

theorem fieldsRefer_iff
    {position : Position}
    {interfaces : List String}
    {fields : List FieldDefinition}
    {place : List Nat}
    {ref : Reference} :
    FieldsRefer position interfaces fields place ref ↔
      Under 0 (InParts interfaces fun name => Own name position)
        place ref ∨
      Under 1 (InParts fields FieldRefers) place ref := by
  constructor
  · rintro (hPart | ⟨hPart, hType⟩ | ⟨hField, hPart, hType⟩)
    · exact .inl ⟨_, rfl, _, _, hPart, _, rfl, rfl, rfl⟩
    · cases hType.eq_innermost
      exact .inr ⟨_, rfl, _, _, hPart, _, rfl,
        .inl ⟨_, rfl, rfl, rfl⟩⟩
    · cases hType.eq_innermost
      exact .inr ⟨_, rfl, _, _, hField, _, rfl,
        .inr ⟨_, _, hPart, _, rfl, rfl, rfl⟩⟩
  · rintro (⟨_, rfl, k, name, hPart, _, rfl, rfl, rfl⟩ |
      ⟨_, rfl, j, field, hField, _, rfl, hRefers⟩)
    · exact .interface hPart
    · rcases hRefers with ⟨_, ⟨⟩, rfl, rfl⟩ |
        ⟨k, argument, hPart, _, rfl, rfl, rfl⟩
      · exact .field hField field.type.wraps_innermost
      · exact .argument hField hPart
          argument.type.wraps_innermost

theorem lists_fielded
    (position : Position)
    (interfaces : List String)
    (fields : List FieldDefinition) :
    Lists (FieldsRefer position interfaces fields)
      (namesAt position interfaces ++ fieldReferences fields) := by
  have hInterfaces :=
    Lists.names interfaces (fun name => name) fun _ => position
  exact ((hInterfaces.under 0).under_append
    ((lists_fields fields).under 1) (by decide)).congr
    fun _ _ => fieldsRefer_iff

/- A content is read by its kind. -/
theorem lists_content
    (position : Position)
    (content : TypeContent) :
    Lists (content.Refers position)
      (contentReferences position content) := by
  cases content with
  | scalar => exact Lists.nil fun _ _ => nofun
  | enum values => exact Lists.nil fun _ _ => nofun
  | object interfaces fields =>
      exact (lists_fielded position interfaces fields).congr
        fun _ _ => ⟨fun (.object h) => h, .object⟩
  | interface interfaces fields =>
      exact (lists_fielded position interfaces fields).congr
        fun _ _ => ⟨fun (.interface h) => h, .interface⟩
  | union members =>
      refine (Lists.names members (fun name => name)
        fun _ => position).congr fun place ref => ?_
      constructor
      · rintro (- | - | hPart)
        exact ⟨_, _, hPart, _, rfl, rfl, rfl⟩
      · rintro ⟨k, name, hPart, _, rfl, rfl, rfl⟩
        exact .member hPart
  | inputObject fields =>
      refine (lists_inputs fields).congr fun place ref => ?_
      constructor
      · rintro (- | - | - | ⟨hPart, hType⟩)
        cases hType.eq_innermost
        exact ⟨_, _, hPart, _, rfl, rfl, rfl⟩
      · rintro ⟨k, field, hPart, _, rfl, rfl, rfl⟩
        exact .inputField hPart field.type.wraps_innermost

theorem refers_schema_iff
    {block : SchemaBlock}
    {place : List Nat}
    {ref : Reference} :
    (TypeSystemDefinition.schema block).Refers place ref ↔
      (Under 0 (OwnIf block.query block.position) place ref ∨
        Under 1 (OwnIf block.mutation block.position) place
          ref) ∨
      Under 2 (OwnIf block.subscription block.position) place
        ref := by
  constructor
  · rintro (hRoot | hRoot | hRoot)
    · exact .inl (.inl ⟨_, rfl, _, hRoot, rfl, rfl⟩)
    · exact .inl (.inr ⟨_, rfl, _, hRoot, rfl, rfl⟩)
    · exact .inr ⟨_, rfl, _, hRoot, rfl, rfl⟩
  · rintro ((⟨_, rfl, name, hRoot, rfl, rfl⟩ |
      ⟨_, rfl, name, hRoot, rfl, rfl⟩) |
      ⟨_, rfl, name, hRoot, rfl, rfl⟩)
    · exact .query hRoot
    · exact .mutation hRoot
    · exact .subscription hRoot

/- The root types of a block, in order of the operations. -/
theorem lists_roots (block : SchemaBlock) :
    Lists (TypeSystemDefinition.schema block).Refers
      (namesAt block.position
        (block.query.toList ++ block.mutation.toList ++
          block.subscription.toList)) := by
  rw [namesAt, List.map_append, List.map_append]
  have hRoot (name? : Option String) (k : Nat) :=
    (Lists.ownIf name? block.position).under k
  have hTwo :=
    (hRoot block.query 0).under_append (hRoot block.mutation 1)
      (by decide)
  refine (hTwo.append (hRoot block.subscription 2) ?_).congr
    fun _ _ => refers_schema_iff
  rintro place ref place' ref' (h | h) h'
  · exact before_of_under (by decide) h h'
  · exact before_of_under (by decide) h h'

/- A definition is read by its kind. -/
theorem lists_typeSystemDefinition
    (definition : TypeSystemDefinition) :
    Lists definition.Refers
      (typeSystemDefinitionReferences definition) := by
  cases definition with
  | schema block => exact lists_roots block
  | type definition =>
      exact (lists_content definition.position
        definition.content).congr
        fun _ _ => ⟨fun (.type h) => h, .type⟩
  | extension extension =>
      exact (lists_content extension.position
        extension.content).congr
        fun _ _ => ⟨fun (.extension h) => h, .extension⟩
  | directive directive =>
      refine (lists_inputs directive.arguments).congr
        fun place ref => ?_
      constructor
      · rintro (- | - | - | - | - | ⟨hPart, hType⟩)
        cases hType.eq_innermost
        exact ⟨_, _, hPart, _, rfl, rfl, rfl⟩
      · rintro ⟨k, argument, hPart, _, rfl, rfl, rfl⟩
        exact .argument hPart argument.type.wraps_innermost

/- All names of a type system document, in order. -/
theorem lists_typeSystem (document : TypeSystemDocument) :
    Lists document.Refers (typeSystemReferences document) :=
  Lists.parts fun definition _ =>
    lists_typeSystemDefinition definition

------------------------------------------------------------
-- Unknown Names
------------------------------------------------------------

/-
  The names that a type system document may refer to: those of
  its own types, wherever they are defined, of the types of a
  base, of the built-in scalars and of the introspection types.
-/
inductive Known
    (base? : Option Schema)
    (document : TypeSystemDocument) : String → Prop where
  | defined {definition : TypeDefinition}
      (hDefinition : .type definition ∈ document) :
      Known base? document definition.name
  | base {schema : Schema} {name : String}
      (hBase : base? = some schema)
      (hName : schema.types.contains name = true) :
      Known base? document name
  | builtin (scalar : BuiltinScalar) :
      Known base? document scalar.name
  | introspection {name : String}
      (hName : name ∈ introspectionNames) :
      Known base? document name

theorem mem_definedNames_iff
    {document : TypeSystemDocument}
    {name : String} :
    name ∈ definedNames document ↔
      ∃ definition, .type definition ∈ document ∧
        definition.name = name := by
  rw [definedNames, List.mem_filterMap]
  constructor
  · rintro ⟨definition, hDefinition, hName⟩
    cases definition with
    | type definition =>
        exact ⟨definition, hDefinition, Option.some.inj hName⟩
    | _ => cases hName
  · rintro ⟨definition, hDefinition, rfl⟩
    exact ⟨.type definition, hDefinition, rfl⟩

/- The test for known names accepts these and no others. -/
theorem isKnown_eq_true_iff
    {base? : Option Schema}
    {document : TypeSystemDocument}
    {name : String} :
    isKnown base? document name = true ↔
      Known base? document name := by
  simp only [isKnown, standardNames, Bool.or_eq_true,
    List.contains_iff_mem, List.mem_append, List.mem_map,
    Option.any_eq_true, mem_definedNames_iff]
  constructor
  · rintro ((⟨definition, hDefinition, rfl⟩ |
      ⟨schema, hBase, hName⟩) | ⟨scalar, -, rfl⟩ | hName)
    · exact .defined hDefinition
    · exact .base hBase hName
    · exact .builtin scalar
    · exact .introspection hName
  · rintro (hDefinition | ⟨hBase, hName⟩ | scalar | hName)
    · exact .inl (.inl ⟨_, hDefinition, rfl⟩)
    · exact .inl (.inr ⟨_, hBase, hName⟩)
    · exact .inr (.inl ⟨scalar, by cases scalar <;> decide, rfl⟩)
    · exact .inr (.inr hName)

/-
  The error for a name at a place: it has this one location, and
  it quotes the name and asks for the closest of some options,
  unless none of them is close.
-/
structure Blames
    (options : List String)
    (ref : Reference)
    (error : ValidationError) : Prop where
  locations_eq : error.locations = [ref.position]
  message_eq : error.message =
    "Unknown type \"" ++ ref.name ++ "\"." ++
      if Suggestion.closest ref.name options = [] then
        ""
      else
        " Did you mean " ++
          Suggestion.orList
            (Suggestion.closest ref.name options) ++ "?"

theorem blames_unknownName
    (options : List String)
    (ref : Reference) :
    Blames options ref (unknownName options ref) := by
  refine ⟨rfl, ?_⟩
  cases hClosest : Suggestion.closest ref.name options with
  | nil =>
      simp [unknownName, Suggestion.didYouMean, hClosest,
        toString]
  | cons first rest =>
      simp [unknownName, Suggestion.didYouMean, hClosest,
        toString]

/- Each name has its error. -/
theorem forall₂_blames
    (options : List String)
    (refs : List Reference) :
    List.Forall₂ (Blames options) refs
      (refs.map (unknownName options)) := by
  rw [List.forall₂_map_right_iff, List.forall₂_same]
  exact fun ref _ => blames_unknownName options ref

/-
  The errors for a document are those of its places with an
  unknown name, one for each, in the order of the places. Each
  is located where the place belongs. It asks for types of the
  schema, or for standard types and those of the document.
-/
theorem reports_unknown_names :
    (∀ (schema : Schema) (document : ExecutableDocument),
      ∃ unknown : List Reference,
        (∀ refs,
          Lists
            (fun place ref => document.Refers place ref ∧
              schema.types.contains ref.name = false)
            refs ↔
          refs = unknown) ∧
        List.Forall₂ (Blames schema.types.sortedNames) unknown
          (checkExecutable schema document)) ∧
    ∀ (base? : Option Schema) (document : TypeSystemDocument),
      ∃ unknown : List Reference,
        (∀ refs,
          Lists
            (fun place ref => document.Refers place ref ∧
              ¬ Known base? document ref.name)
            refs ↔
          refs = unknown) ∧
        List.Forall₂
          (Blames (standardNames ++ definedNames document))
          unknown (checkTypeSystem base? document) := by
  constructor
  · intro schema document
    have hUnknown := ((lists_executable document).filter fun ref =>
      !schema.types.contains ref.name).congr
      fun place ref => by rw [Bool.not_eq_true']
    exact
      ⟨_, fun refs => hUnknown.iff_eq, forall₂_blames _ _⟩
  · intro base? document
    have hUnknown := ((lists_typeSystem document).filter fun ref =>
      !isKnown base? document ref.name).congr
      fun place ref => by
        rw [Bool.not_eq_true', ← Bool.not_eq_true,
          isKnown_eq_true_iff]
    exact
      ⟨_, fun refs => hUnknown.iff_eq, forall₂_blames _ _⟩

end KnownTypeNames

end GraphQL
