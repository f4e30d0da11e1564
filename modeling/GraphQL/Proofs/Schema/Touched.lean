import Mathlib.Data.List.TakeWhile
import GraphQL.Proofs.Schema.ByName
import GraphQL.Proofs.Schema.Resolvers

/-
  What a pass touches.

  A pass takes definitions and extensions of types, from
  documents and one by one. A type that one of them names is
  touched. The types of the base come first, in their order,
  and then those that are defined, in the order of their
  definitions, each with everything that was added to it.

  Key definitions include:
    * `Pass.Item`, `Pass.Takes`: what a pass takes
    * `Pass.touches`, `Pass.extensions`
    * `Draft.Follows`, `Draft.Tracks`

  Main declarations:
    * `Draft.Tracks.take`, `Draft.Tracks.takeAll`
    * `Draft.Tracks.follows_of_settleKinds`
    * `Pass.tracks_fromBase`
-/

------------------------------------------------------------
-- Extensions Of A Type
------------------------------------------------------------

namespace GraphQL

namespace TypeDef

variable {type next : TypeDef}
variable {extensions : List (SourceLocation × TypeExtension)}

/- Extend a type several times. -/
def extendAll
    (type : TypeDef)
    (extensions : List (SourceLocation × TypeExtension)) :
    Except BuildError TypeDef :=
  extensions.foldlM
    (fun type extension => type.extend extension.1 extension.2)
    type

theorem extendAll_append
    (type : TypeDef)
    (first second : List (SourceLocation × TypeExtension)) :
    type.extendAll (first ++ second) =
      type.extendAll first >>= fun next =>
        next.extendAll second :=
  List.foldlM_append

/- Extensions keep what a type is, and are of its kind. -/
theorem of_extendAll
    (h : type.extendAll extensions = .ok next) :
    next.kind = type.kind ∧ next.name = type.name ∧
      ∀ extension ∈ extensions,
        extension.2.content.kind = type.kind := by
  unfold extendAll at h
  induction extensions generalizing type with
  | nil =>
      cases h
      simp
  | cons first rest ih =>
      rw [List.foldlM_cons] at h
      rcases Results.bind_eq_ok_iff.1 h with
        ⟨middle, hMiddle, hRest⟩
      have hExtends := extend_eq_ok_iff.1 hMiddle
      rcases hExtends.kept with ⟨hKind, hName, -⟩
      have hFirst : first.2.content.kind = type.kind := by
        cases hExtends <;> simp_all [TypeContent.kind, kind]
      rcases ih hRest with ⟨hKind', hName', hAll⟩
      rw [hKind] at hKind' hAll
      exact
        ⟨hKind', hName'.trans hName,
          List.forall_mem_cons.2 ⟨hFirst, hAll⟩⟩

end TypeDef

------------------------------------------------------------
-- Items
------------------------------------------------------------

namespace Pass

/- What a pass takes that concerns a type. -/
inductive Item where
  | defined (type : TypeDef)
  | extended
      (location : SourceLocation)
      (extension : TypeExtension)

namespace Item

/- The name of the type. -/
def name : Item → String
| .defined type => type.name
| .extended _ extension => extension.name

/- The type that is defined. -/
def type? : Item → Option TypeDef
| .defined type => some type
| .extended _ _ => none

/- The extension, if it is one of a type of the name. -/
def extensionOf? (name : String) :
    Item → Option (SourceLocation × TypeExtension)
| .defined _ => none
| .extended location extension =>
    if extension.name = name then
      some (location, extension)
    else
      none

/- Whether a type of the name is defined. -/
def defines (name : String) : Item → Bool
| .defined type => type.name == name
| .extended _ _ => false

/- What a definition of a document says about a type. -/
def ofDefinition? (file : Option String) :
    TypeSystemDefinition → Option Item
| .type definition =>
    let location :=
      SourceLocation.ofSchema file definition.position
    match TypeDef.ofDefinition location definition with
    | .ok type => some (.defined type)
    | .error _ => none
| .extension extension =>
    some
      (.extended (.ofSchema file extension.position) extension)
| _ => none

/- Take an item; an extension may have to wait. -/
def take (stage : Draft.Stage) :
    Item → Except BuildError Draft.Stage
| .defined type => do
    return (← stage.1.define type, stage.2)
| .extended location extension => do
    match ← stage.1.extend? location extension with
    | some draft => return (draft, stage.2)
    | none =>
        return (stage.1, stage.2 ++ [(location, extension)])

/- A definition of a document is taken as its item. -/
theorem take_of_takeStage
    {file : Option String}
    {stage next : Draft.Stage}
    {definition : TypeSystemDefinition}
    (h : Draft.takeStage file stage definition = .ok next) :
    (ofDefinition? file definition).toList.foldlM take stage =
      .ok next := by
  cases definition with
  | type definition =>
      rcases Results.bind_eq_ok_iff.1 h with
        ⟨type, hType, hNext⟩
      simp only [ofDefinition?, hType, Option.toList_some,
        List.foldlM_cons, List.foldlM_nil, bind_pure]
      exact hNext
  | extension extension =>
      simp only [ofDefinition?, Option.toList_some,
        List.foldlM_cons, List.foldlM_nil, bind_pure]
      exact h
  | _ => exact h

/- A document is taken as its items. -/
theorem takeAll_of_takeStages
    {file : Option String}
    {document : TypeSystemDocument}
    {stage last : Draft.Stage}
    (h : document.foldlM (Draft.takeStage file) stage =
      .ok last) :
    (document.filterMap (ofDefinition? file)).foldlM take stage =
      .ok last := by
  induction document generalizing stage with
  | nil => exact h
  | cons definition rest ih =>
      rw [List.foldlM_cons] at h
      rcases Results.bind_eq_ok_iff.1 h with
        ⟨next, hNext, hRest⟩
      have hSplit :
          (definition :: rest).filterMap (ofDefinition? file) =
            (ofDefinition? file definition).toList ++
              rest.filterMap (ofDefinition? file) := by
        rw [List.filterMap_cons]
        cases ofDefinition? file definition <;> rfl
      rw [hSplit, List.foldlM_append, take_of_takeStage hNext]
      exact ih hRest

end Item

/-
  One pass follows from another by taking documents and types
  whose items come in this order.
-/
inductive Takes (start : Pass) : List Item → Pass → Prop where
  | start : Takes start [] start
  | load {items : List Item} {pass next : Pass}
      {file : Option String} {document : TypeSystemDocument} :
      Takes start items pass →
      pass.load file document = .ok next →
      Takes start
        (items ++ document.filterMap (Item.ofDefinition? file))
        next
  | loadText {items : List Item} {pass next : Pass}
      {path? : Option String} {text : String}
      {document : TypeSystemDocument} :
      Takes start items pass →
      TypeSystemDocument.read? text = some document →
      pass.loadText path? text = .ok next →
      Takes start
        (items ++
          document.filterMap
            (Item.ofDefinition?
              (path?.getD ("str://" ++ toString pass.unnamed))))
        next
  | define {items : List Item} {pass next : Pass}
      {type : TypeDef} :
      Takes start items pass →
      pass.define type = .ok next →
      Takes start (items ++ [.defined type]) next

/- Whatever a pass takes, it takes some items. -/
theorem Grows.exists_takes
    {start pass : Pass}
    (h : start.Grows pass) : ∃ items, start.Takes items pass := by
  induction h with
  | start => exact ⟨_, .start⟩
  | load _ hNext ih =>
      rcases ih with ⟨items, hItems⟩
      exact ⟨_, .load hItems hNext⟩
  | @loadText pass next path? text _ hNext ih =>
      rcases ih with ⟨items, hItems⟩
      cases hRead : TypeSystemDocument.read? text with
      | none => simp [Pass.loadText, hRead] at hNext
      | some document => exact ⟨_, .loadText hItems hRead hNext⟩
  | define _ hNext ih =>
      rcases ih with ⟨items, hItems⟩
      exact ⟨_, .define hItems hNext⟩

/- A pass takes its items one by one. -/
theorem Takes.takeAll
    {start pass : Pass}
    {items : List Item}
    (h : start.Takes items pass) :
    items.foldlM Item.take start.stage = .ok pass.stage := by
  induction h with
  | start => rfl
  | load _ hNext ih =>
      rw [List.foldlM_append, ih]
      exact Item.takeAll_of_takeStages (of_load hNext).1
  | loadText _ hRead hNext ih =>
      rw [List.foldlM_append, ih]
      simp only [Pass.loadText, hRead] at hNext
      exact Item.takeAll_of_takeStages (of_load hNext).1
  | define _ hNext ih =>
      rcases Results.bind_eq_ok_iff.1 hNext with
        ⟨draft, hDraft, hPass⟩
      cases hPass
      rw [List.foldlM_append, ih]
      refine Results.bind_eq_ok_iff.2 ⟨_, rfl, ?_⟩
      refine Results.bind_eq_ok_iff.2 ⟨_, ?_, rfl⟩
      exact Results.bind_eq_ok_iff.2 ⟨draft, hDraft, rfl⟩

------------------------------------------------------------
-- What Items Say Of A Name
------------------------------------------------------------

/- Whether an item defines or extends a type of the name. -/
def touches (items : List Item) (name : String) : Bool :=
  items.any fun item => item.name == name

/- The extensions of a name before it is defined. -/
def early (items : List Item) (name : String) :
    List (SourceLocation × TypeExtension) :=
  (items.takeWhile fun item => !item.defines name).filterMap
    (Item.extensionOf? name)

/- The extensions of a name after it is defined. -/
def late (items : List Item) (name : String) :
    List (SourceLocation × TypeExtension) :=
  (items.dropWhile fun item => !item.defines name).filterMap
    (Item.extensionOf? name)

/-
  The extensions of a name in the order in which they are
  applied: those that come before the definition have to wait.
-/
def extensions (items : List Item) (name : String) :
    List (SourceLocation × TypeExtension) :=
  late items name ++ early items name

/- The types of a base count as defined before the items. -/
def history (base : List TypeDef) (items : List Item) :
    List Item :=
  base.map Item.defined ++ items

/- The types of a base and those that are defined. -/
def sources (base : List TypeDef) (items : List Item) :
    List TypeDef :=
  base ++ items.filterMap Item.type?

section

variable {items : List Item} {name : String}

theorem touches_append
    (items : List Item)
    (item : Item)
    (name : String) :
    touches (items ++ [item]) name =
      (touches items name || item.name == name) := by
  simp [touches]

theorem history_append
    (base : List TypeDef)
    (items : List Item)
    (item : Item) :
    history base (items ++ [item]) =
      history base items ++ [item] := by
  simp [history]

theorem sources_append
    (base : List TypeDef)
    (items : List Item)
    (item : Item) :
    sources base (items ++ [item]) =
      sources base items ++ item.type?.toList := by
  cases item <;> simp [sources, Item.type?]

/- The sources are the types that the history defines. -/
theorem sources_eq (base : List TypeDef) (items : List Item) :
    sources base items =
      (history base items).filterMap Item.type? := by
  simp [sources, history, Function.comp_def, Item.type?]

theorem mem_names_sources_iff {base : List TypeDef} :
    name ∈ (sources base items).map TypeDef.name ↔
      (history base items).any (Item.defines name) = true := by
  have hItem : ∀ item : Item,
      (∃ type, item.type? = some type ∧ type.name = name) ↔
        item.defines name = true := by
    intro item
    cases item <;> simp [Item.type?, Item.defines]
  simp only [sources_eq, List.mem_map, List.mem_filterMap,
    List.any_eq_true, ← hItem]
  constructor
  · rintro ⟨type, ⟨item, hMem, hType⟩, hName⟩
    exact ⟨item, hMem, type, hType, hName⟩
  · rintro ⟨item, hMem, type, hType, hName⟩
    exact ⟨type, ⟨item, hMem, hType⟩, hName⟩

theorem extensionOf?_of_defines
    {item : Item}
    (h : item.defines name = true) :
    item.extensionOf? name = none := by
  cases item with
  | defined type => rfl
  | extended location extension => cases h

theorem early_cons
    (item : Item)
    (items : List Item)
    (name : String) :
    early (item :: items) name =
      if item.defines name then
        []
      else
        (item.extensionOf? name).toList ++ early items name := by
  unfold early
  split
  · next hDefines => simp [hDefines]
  · next hDefines =>
      rw [List.takeWhile_cons, if_pos (by simpa using hDefines),
        List.filterMap_cons]
      cases item.extensionOf? name <;> rfl

theorem late_cons
    (item : Item)
    (items : List Item)
    (name : String) :
    late (item :: items) name =
      if item.defines name then
        items.filterMap (Item.extensionOf? name)
      else
        late items name := by
  unfold late
  split
  · next hDefines =>
      rw [List.dropWhile_cons, if_neg (by simpa using hDefines),
        List.filterMap_cons, extensionOf?_of_defines hDefines]
  · next hDefines =>
      rw [List.dropWhile_cons, if_pos (by simpa using hDefines)]

/- What comes last is early if there is no definition. -/
theorem early_append
    (items : List Item)
    (item : Item)
    (name : String) :
    early (items ++ [item]) name =
      early items name ++
        if items.any (Item.defines name) then
          []
        else
          (item.extensionOf? name).toList := by
  induction items with
  | nil =>
      rw [List.nil_append, early_cons]
      split
      · next hDefines =>
          simp [early, extensionOf?_of_defines hDefines]
      · simp [early]
  | cons first rest ih =>
      rw [List.cons_append, early_cons, early_cons, ih,
        List.any_cons]
      split
      · next hDefines => simp [hDefines]
      · next hDefines => simp [hDefines]

theorem late_append
    (items : List Item)
    (item : Item)
    (name : String) :
    late (items ++ [item]) name =
      late items name ++
        if items.any (Item.defines name) then
          (item.extensionOf? name).toList
        else
          [] := by
  induction items with
  | nil =>
      rw [List.nil_append, late_cons]
      split <;> simp [late]
  | cons first rest ih =>
      rw [List.cons_append, late_cons, late_cons, ih,
        List.any_cons]
      split
      · next hDefines =>
          rw [List.filterMap_append, List.filterMap_cons]
          cases item.extensionOf? name <;> simp [hDefines]
      · next hDefines => simp [hDefines]

/- A name without a source has only early extensions. -/
theorem undefined_of_not_mem
    {base : List TypeDef}
    (h : name ∉ (sources base items).map TypeDef.name) :
    late (history base items) name = [] ∧
      early (history base items) name =
        (history base items).filterMap
          (Item.extensionOf? name) := by
  have hAll : ∀ item ∈ history base items,
      (!item.defines name) = true := by
    rw [mem_names_sources_iff, List.any_eq_true] at h
    intro item hItem
    simpa using fun hDefines => h ⟨item, hItem, hDefines⟩
  constructor
  · rw [late, List.dropWhile_eq_nil_iff.2 hAll]
    rfl
  · rw [early, List.takeWhile_eq_self_iff.2 hAll]

/- The extensions of a type touch it. -/
theorem touches_of_mem_extensions
    {base : List TypeDef}
    {extension : SourceLocation × TypeExtension}
    (h : extension ∈ extensions (history base items) name) :
    touches items name = true := by
  have hAll : extension ∈
      (history base items).filterMap
        (Item.extensionOf? name) := by
    rcases List.mem_append.1 h with hLate | hEarly
    · exact ((List.dropWhile_suffix _).filterMap _).subset hLate
    · exact ((List.takeWhile_prefix _).filterMap _).subset hEarly
  rcases List.mem_filterMap.1 hAll with ⟨item, hItem, hSome⟩
  cases item with
  | defined type => cases hSome
  | extended location extension =>
      have hMem : .extended location extension ∈ items := by
        simpa [history] using hItem
      refine List.any_eq_true.2 ⟨_, hMem, ?_⟩
      simp only [Item.extensionOf?, Option.ite_none_right_eq_some]
        at hSome
      simpa [Item.name] using hSome.1

theorem extensions_of_untouched
    {base : List TypeDef}
    (h : touches items name = false) :
    extensions (history base items) name = [] := by
  rw [List.eq_nil_iff_forall_not_mem]
  intro extension hMem
  rw [touches_of_mem_extensions hMem] at h
  cases h

/- What is touched has a source or an early extension. -/
theorem exists_of_touches
    {base : List TypeDef}
    (h : touches items name = true) :
    name ∈ (sources base items).map TypeDef.name ∨
      ∃ waiting ∈ early (history base items) name,
        waiting.2.name = name := by
  by_cases hSource : name ∈ (sources base items).map TypeDef.name
  · exact .inl hSource
  · right
    rw [(undefined_of_not_mem hSource).2]
    rcases List.any_eq_true.1 h with ⟨item, hItem, hName⟩
    have hMem : item ∈ history base items :=
      List.mem_append_right _ hItem
    cases item with
    | defined type =>
        rw [mem_names_sources_iff, List.any_eq_true] at hSource
        exact absurd ⟨_, hMem, hName⟩ hSource
    | extended location extension =>
        have hSame : extension.name = name := by
          simpa [Item.name] using hName
        refine ⟨(location, extension), ?_, hSame⟩
        refine List.mem_filterMap.2 ⟨_, hMem, ?_⟩
        simp [Item.extensionOf?, hSame]

end

end Pass

------------------------------------------------------------
-- Drafts
------------------------------------------------------------

/- An entry that follows from a type by extensions. -/
structure DraftEntry.Follows
    (extensions :
      String → List (SourceLocation × TypeExtension))
    (touched : String → Bool)
    (source : TypeDef)
    (entry : DraftEntry) : Prop where
  type_eq : source.extendAll (extensions source.name) =
    .ok entry.type
  touched_eq : entry.touched = touched source.name

theorem DraftEntry.Follows.name_eq
    {extensions :
      String → List (SourceLocation × TypeExtension)}
    {touched : String → Bool}
    {source : TypeDef}
    {entry : DraftEntry}
    (h : entry.Follows extensions touched source) :
    entry.type.name = source.name :=
  (TypeDef.of_extendAll h.type_eq).2.1

namespace Draft

variable {extensions extensions' :
  String → List (SourceLocation × TypeExtension)}
variable {touched touched' : String → Bool}
variable {sources : List TypeDef} {draft next last : Draft}

/- A draft whose entries follow from types. -/
def Follows
    (extensions :
      String → List (SourceLocation × TypeExtension))
    (touched : String → Bool)
    (sources : List TypeDef)
    (draft : Draft) : Prop :=
  List.Forall₂ (DraftEntry.Follows extensions touched) sources
    draft

namespace Follows

theorem names_eq
    (h : Follows extensions touched sources draft) :
    (draft.map fun entry => entry.type.name) =
      sources.map TypeDef.name := by
  induction h with
  | nil => rfl
  | cons hFirst _ ih =>
      rw [List.map_cons, List.map_cons, ih, hFirst.name_eq]

/- The draft has an entry for the name of each source. -/
theorem find?_eq_none_iff
    (h : Follows extensions touched sources draft)
    (name : String) :
    draft.find? name = none ↔
      name ∉ sources.map TypeDef.name := by
  rw [← h.names_eq, Draft.find?_eq_none_iff]
  simp

/- Only what is said of the sources matters. -/
theorem congr
    (h : Follows extensions touched sources draft)
    (hSame : ∀ source ∈ sources,
      extensions' source.name = extensions source.name ∧
        touched' source.name = touched source.name) :
    Follows extensions' touched' sources draft := by
  refine Results.forall₂_imp_of_mem h ?_
  intro source hSource entry _ hEntry
  rcases hSame source hSource with ⟨hExtensions, hTouched⟩
  exact
    ⟨by rw [hExtensions, hEntry.type_eq],
      by rw [hTouched, hEntry.touched_eq]⟩

/- A type that is defined is a source of its own. -/
theorem define
    {type : TypeDef}
    (h : Follows extensions touched sources draft)
    (hNext : draft.define type = .ok next)
    (hNone : extensions type.name = [])
    (hTouched : touched type.name = true) :
    Follows extensions touched (sources ++ [type]) next := by
  rcases define_eq_ok_iff.1 hNext with ⟨-, -, -, rfl⟩
  refine List.rel_append h (.cons ⟨?_, hTouched.symm⟩ .nil)
  rw [hNone]
  rfl

/- An extension is added to those of its type. -/
theorem applies
    {waiting : SourceLocation × TypeExtension}
    (h : Follows extensions touched sources draft)
    (hDistinct : draft.Distinct)
    (hNext : Applies waiting draft next) :
    Follows
      (fun name =>
        extensions name ++
          if waiting.2.name = name then [waiting] else [])
      (fun name => touched name || waiting.2.name == name)
      sources next := by
  rcases hNext with ⟨-, found, type, hFound, hType, rfl⟩
  unfold Follows replace
  rw [List.forall₂_map_right_iff]
  refine Results.forall₂_imp_of_mem h ?_
  intro source _ entry hMem hEntry
  have hName := hEntry.name_eq
  by_cases hSame : entry.type.name = waiting.2.name
  · have hEntryFound := hDistinct.find?_eq_some_iff.2
      ⟨hMem, hSame⟩
    rw [hFound] at hEntryFound
    cases hEntryFound
    rw [hSame] at hName
    rw [if_pos hSame]
    constructor
    · rw [if_pos hName, TypeDef.extendAll_append, hEntry.type_eq]
      refine Results.bind_eq_ok_iff.2 ⟨_, rfl, ?_⟩
      have hExtend := TypeDef.extend_eq_ok_iff.2 hType
      exact Results.bind_eq_ok_iff.2 ⟨_, hExtend, rfl⟩
    · simp [hName]
  · have hNe : waiting.2.name ≠ source.name := by
      rw [← hName]
      exact Ne.symm hSame
    rw [if_neg hSame]
    constructor
    · rw [if_neg hNe, List.append_nil, hEntry.type_eq]
    · simp [hEntry.touched_eq, hNe]

/- Extensions that waited are added in their order. -/
theorem settleAll
    {waiting : List (SourceLocation × TypeExtension)}
    (h : Follows extensions touched sources draft)
    (hDistinct : draft.Distinct)
    (hTouched : ∀ extension ∈ waiting,
      touched extension.2.name = true)
    (hLast : waiting.foldlM Pass.settleOne draft = .ok last) :
    Follows
      (fun name =>
        extensions name ++
          waiting.filter fun extension =>
            extension.2.name == name)
      touched sources last := by
  induction waiting generalizing extensions draft with
  | nil =>
      cases hLast
      simpa using h
  | cons first rest ih =>
      rw [List.foldlM_cons] at hLast
      rcases Results.bind_eq_ok_iff.1 hLast with
        ⟨next, hNext, hRest⟩
      have hApplies := settleOne_eq_ok_iff.1 hNext
      rcases List.forall_mem_cons.1 hTouched with
        ⟨hFirst, hOthers⟩
      have hOne : Follows
          (fun name =>
            extensions name ++
              if first.2.name = name then [first] else [])
          touched sources next := by
        refine (h.applies hDistinct hApplies).congr
          fun source _ => ⟨rfl, ?_⟩
        by_cases hSame : first.2.name = source.name
        · simp [← hSame, hFirst]
        · simp [hSame]
      have hAll := ih hOne
        (distinct_of_applies hApplies hDistinct) hOthers hRest
      refine hAll.congr fun source _ => ⟨?_, rfl⟩
      rw [List.filter_cons, List.append_assoc]
      by_cases hSame : first.2.name = source.name <;>
        simp [hSame]

end Follows

------------------------------------------------------------
-- Stages
------------------------------------------------------------

open Pass

/-
  A stage after items were taken: each source was extended by
  what came after its definition, and the rest waits.
-/
structure Tracks
    (base : List TypeDef)
    (items : List Item)
    (stage : Stage) : Prop where
  entries : Follows (late (history base items)) (touches items)
    (Pass.sources base items) stage.1
  waiting : ∀ name,
    (stage.2.filter fun waiting => waiting.2.name == name) =
      early (history base items) name
  distinct : stage.1.Distinct

namespace Tracks

variable {base : List TypeDef} {items : List Item}
variable {stage stage' : Stage}

/- A definition is a further source, and extends nothing. -/
theorem define
    {type : TypeDef}
    (h : Tracks base items stage)
    (hNext : stage.1.define type = .ok next) :
    Tracks base (items ++ [.defined type]) (next, stage.2) := by
  have hFree := (define_eq_ok_iff.1 hNext).2.2.1
  rw [h.entries.find?_eq_none_iff] at hFree
  constructor
  · rw [history_append, sources_append]
    have hOthers : Follows
        (late (history base items ++ [.defined type]))
        (touches (items ++ [.defined type]))
        (Pass.sources base items) stage.1 := by
      refine h.entries.congr fun source hSource => ⟨?_, ?_⟩
      · rw [late_append]
        simp [Item.extensionOf?]
      · have hNe : type.name ≠ source.name := by
          rintro hSame
          exact hFree (hSame ▸ List.mem_map_of_mem hSource)
        rw [touches_append]
        simp [Item.name, hNe]
    refine hOthers.define hNext ?_ ?_
    · rw [late_append, (undefined_of_not_mem hFree).1]
      simp [Item.extensionOf?]
    · rw [touches_append]
      simp [Item.name]
  · intro name
    rw [history_append, early_append, h.waiting]
    simp [Item.extensionOf?]
  · exact distinct_of_define hNext h.distinct

/- An extension of a type that is there is applied at once. -/
theorem applies
    {location : SourceLocation}
    {extension : TypeExtension}
    (h : Tracks base items stage)
    (hNext : Applies (location, extension) stage.1 next) :
    Tracks base (items ++ [.extended location extension])
      (next, stage.2) := by
  have hKnown : extension.name ∈
      (Pass.sources base items).map TypeDef.name := by
    rcases hNext.exists_type with ⟨entry, type, hEntry, -⟩
    by_contra hNone
    rw [← h.entries.find?_eq_none_iff, hEntry] at hNone
    cases hNone
  rw [mem_names_sources_iff] at hKnown
  constructor
  · rw [history_append, sources_append, Item.type?,
      Option.toList_none, List.append_nil]
    refine (h.entries.applies h.distinct hNext).congr
      fun source _ => ⟨?_, touches_append _ _ _⟩
    rw [late_append]
    by_cases hSame : extension.name = source.name
    · simp [Item.extensionOf?, ← hSame, hKnown]
    · simp [Item.extensionOf?, hSame]
  · intro name
    rw [history_append, early_append, h.waiting]
    by_cases hSame : extension.name = name
    · simp [← hSame, hKnown]
    · simp [Item.extensionOf?, hSame]
  · exact distinct_of_applies hNext h.distinct

/- An extension of a type that is not there waits. -/
theorem wait
    {location : SourceLocation}
    {extension : TypeExtension}
    (h : Tracks base items stage)
    (hNone : stage.1.find? extension.name = none) :
    Tracks base (items ++ [.extended location extension])
      (stage.1, stage.2 ++ [(location, extension)]) := by
  rw [h.entries.find?_eq_none_iff] at hNone
  have hUndefined := hNone
  rw [mem_names_sources_iff] at hUndefined
  constructor
  · rw [history_append, sources_append, Item.type?,
      Option.toList_none, List.append_nil]
    refine h.entries.congr fun source hSource => ?_
    have hNe : extension.name ≠ source.name := by
      intro hSame
      exact hNone (hSame ▸ List.mem_map_of_mem hSource)
    rw [late_append, touches_append]
    simp [Item.extensionOf?, Item.name, hNe]
  · intro name
    rw [history_append, early_append, List.filter_append,
      h.waiting]
    by_cases hSame : extension.name = name
    · simp [Item.extensionOf?, ← hSame, hUndefined]
    · simp [Item.extensionOf?, hSame]
  · exact h.distinct

/- So a stage keeps track of every item. -/
theorem take
    {item : Item}
    (h : Tracks base items stage)
    (hNext : item.take stage = .ok stage') :
    Tracks base (items ++ [item]) stage' := by
  cases item with
  | defined type =>
      rcases Results.bind_eq_ok_iff.1 hNext with
        ⟨draft, hDraft, hStage⟩
      cases hStage
      exact h.define hDraft
  | extended location extension =>
      rcases Results.bind_eq_ok_iff.1 hNext with
        ⟨found?, hFound, hStage⟩
      cases found? with
      | some draft =>
          cases hStage
          exact h.applies (extend?_eq_some_iff.1 hFound)
      | none =>
          cases hStage
          exact h.wait (extend?_eq_none_iff.1 hFound).2

theorem takeAll
    {later : List Item}
    (h : Tracks base items stage)
    (hNext : later.foldlM Item.take stage = .ok stage') :
    Tracks base (items ++ later) stage' := by
  induction later generalizing items stage with
  | nil =>
      cases hNext
      simpa using h
  | cons item rest ih =>
      rw [List.foldlM_cons] at hNext
      rcases Results.bind_eq_ok_iff.1 hNext with
        ⟨middle, hMiddle, hRest⟩
      have hAll := ih (h.take hMiddle) hRest
      simpa using hAll

/-
  What waits for one type is of its kind, so that it stays in
  its order when it is settled.
-/
theorem filter_settlingList
    {pass : Pass}
    {name : String}
    {type : TypeDef}
    (h : ∀ waiting ∈ pass.waiting, waiting.2.name = name →
      waiting.2.content.kind = type.kind) :
    (pass.settlingList.filter fun waiting =>
        waiting.2.name == name) =
      pass.waiting.filter fun waiting =>
        waiting.2.name == name := by
  have hKind : ∀ kind,
      ((pass.waiting.filter fun waiting =>
          waiting.2.content.kind == kind).filter fun waiting =>
        waiting.2.name == name) =
        if kind = type.kind then
          pass.waiting.filter fun waiting =>
            waiting.2.name == name
        else
          [] := by
    intro kind
    rw [List.filter_filter]
    split
    · next hSame =>
        apply List.filter_congr
        intro waiting hWaiting
        by_cases hName : waiting.2.name = name
        · simp [hName, hSame, h waiting hWaiting hName]
        · simp [hName]
    · next hNe =>
        rw [List.filter_eq_nil_iff]
        intro waiting hWaiting hBoth
        simp only [Bool.and_eq_true, beq_iff_eq] at hBoth
        exact hNe
          (hBoth.2.symm.trans (h waiting hWaiting hBoth.1))
  simp only [settlingList, List.filter_flatMap, hKind]
  cases type <;> simp [settlingOrder, TypeDef.kind]

/- What waits is applied to the sources that it extends. -/
theorem follows_of_settleKinds
    (h : Tracks base items stage)
    (hLast : Draft.settleKinds stage = .ok last) :
    Follows (Pass.extensions (history base items))
      (touches items) (Pass.sources base items) last := by
  let pass := Pass.empty.atStage stage []
  have hPerm : ∀ waiting,
      waiting ∈ pass.settlingList ↔ waiting ∈ stage.2 :=
    fun waiting => pass.settlingList_perm.mem_iff
  have hTouched : ∀ waiting ∈ pass.settlingList,
      touches items waiting.2.name = true := by
    intro waiting hWaiting
    apply @touches_of_mem_extensions items _ base waiting
    apply List.mem_append_right
    rw [← h.waiting, List.mem_filter]
    exact ⟨(hPerm waiting).1 hWaiting, by simp⟩
  have hSettled :=
    h.entries.settleAll h.distinct hTouched hLast
  refine Results.forall₂_imp_of_mem hSettled ?_
  intro source _ entry _ hEntry
  -- What was applied to a type is of the kind of the type.
  have hKinds := (TypeDef.of_extendAll hEntry.type_eq).2.2
  have hOrder : (pass.settlingList.filter fun waiting =>
      waiting.2.name == source.name) =
        early (history base items) source.name := by
    rw [← h.waiting]
    refine @filter_settlingList pass source.name source ?_
    intro waiting hWaiting hName
    apply hKinds waiting
    refine List.mem_append_right _ (List.mem_filter.2 ⟨?_, ?_⟩)
    · exact (hPerm waiting).2 hWaiting
    · simpa using hName
  refine ⟨?_, hEntry.touched_eq⟩
  rw [Pass.extensions, ← hOrder]
  exact hEntry.type_eq

/- In the end every type that was touched is a source. -/
theorem mem_of_touches
    (h : Tracks base items stage)
    (hLast : Draft.settleKinds stage = .ok last)
    {name : String}
    (hName : touches items name = true) :
    name ∈ (Pass.sources base items).map TypeDef.name := by
  rcases exists_of_touches hName with hSource | hWaits
  · exact hSource
  · rcases hWaits with ⟨waiting, hEarly, rfl⟩
    rw [← h.waiting, List.mem_filter] at hEarly
    have hMem : waiting ∈
        (Pass.empty.atStage stage []).settlingList :=
      (Pass.settlingList_perm _).mem_iff.2 hEarly.1
    have hKnown := (known_of_settleAll hLast waiting hMem).2
    by_contra hNone
    exact hKnown ((h.entries.find?_eq_none_iff _).2 hNone)

end Tracks

end Draft

------------------------------------------------------------
-- Schemas
------------------------------------------------------------

namespace Pass

/- A pass that starts from a base schema, if there is one. -/
def fromBase : Option Schema → Pass
| some base => .ofSchema base
| none => .empty

/- A type that is not built in. -/
def declared? : NamedType → Option TypeDef
| .builtin _ => none
| .defined type => some type

/- The types of a base schema that are not built in. -/
def baseTypes : Option Schema → List TypeDef
| some base => base.types.types.filterMap declared?
| none => []

/- Finish a pass that starts from a base schema, if any. -/
def finishFrom
    (base? : Option Schema)
    (pass : Pass)
    (decorator? : Option Decorator) : Outcome :=
  match base? with
  | some base => base.finishExtension pass decorator?
  | none => pass.finish decorator?

theorem draft_fromBase (base? : Option Schema) :
    (fromBase base?).draft =
      (baseTypes base?).map fun type => ⟨type, false⟩ := by
  cases base? with
  | none => rfl
  | some base =>
      simp only [fromBase, ofSchema, Draft.ofGraph, baseTypes,
        List.map_filterMap]
      congr 1
      funext type
      cases type <;> rfl

theorem nodup_baseTypes (base? : Option Schema) :
    ((baseTypes base?).map TypeDef.name).Nodup := by
  cases base? with
  | none => exact List.nodup_nil
  | some base =>
      have hSublist : ∀ types : List NamedType,
          ((types.filterMap declared?).map TypeDef.name).Sublist
            (types.map NamedType.name) := by
        intro types
        induction types with
        | nil => exact .slnil
        | cons first rest ih =>
            cases first with
            | builtin scalar => exact .cons _ ih
            | defined type => exact .cons_cons _ ih
      exact (hSublist _).nodup base.types.nodup_names

/- A pass starts with the types of its base, all untouched. -/
theorem tracks_fromBase (base? : Option Schema) :
    Draft.Tracks (baseTypes base?) [] (fromBase base?).stage := by
  have hNone : ∀ name,
      late (history (baseTypes base?) []) name = [] ∧
        early (history (baseTypes base?) []) name = [] :=
    fun name => List.append_eq_nil_iff.1
      (extensions_of_untouched rfl)
  have hWaiting : (fromBase base?).waiting = [] := by
    cases base? <;> rfl
  constructor
  · rw [stage, draft_fromBase, sources, List.filterMap_nil,
      List.append_nil]
    unfold Draft.Follows
    rw [List.forall₂_map_right_iff, List.forall₂_same]
    intro type _
    refine ⟨?_, rfl⟩
    rw [(hNone type.name).1]
    rfl
  · intro name
    rw [(hNone name).2]
    simp [stage, hWaiting]
  · unfold Draft.Distinct
    rw [stage, draft_fromBase, List.map_map]
    exact nodup_baseTypes base?

/- A base makes no difference to how a pass ends. -/
theorem finishFrom_eq
    (base? : Option Schema)
    (pass : Pass)
    (decorator? : Option Decorator) :
    (finishFrom base? pass decorator?).handed =
        (pass.finish decorator?).handed ∧
      (finishFrom base? pass decorator?).result =
        (pass.finish decorator?).result := by
  cases base? with
  | none => exact ⟨rfl, rfl⟩
  | some base =>
      simp only [finishFrom, Schema.finishExtension]
      split <;> exact ⟨rfl, rfl⟩

end Pass

end GraphQL
