import GraphQL.Proofs.Schema.Covers
import GraphQL.Proofs.Schema.Specifications
import GraphQL.Proofs.Schema.Built

/-
  Extending a schema by a document gives the schema that is
  built from all documents at once, up to the order in which
  extensions added to types.

  Key definitions include:
    * `Schema.ofDocuments`: a schema built at once
    * `Pass.Completes`: declared directives and all directives
    * `Draft.Keeps`: types that stay where they stand

  Main declarations:
    * `Pass.settleRoot_eq_of_kept`
    * `Pass.same_assemble`
    * `Schema.same_extend_ofDocuments`
-/

------------------------------------------------------------
-- Directives
------------------------------------------------------------

namespace GraphQL

namespace Pass

/- Directives none of which is named like a built-in one. -/
def NotBuiltin (directives : List Directive) : Prop :=
  ∀ directive ∈ directives, ∀ builtin ∈ BuiltinDirective.all,
    builtin.name ≠ directive.name

/- All directives of a schema that declares some. -/
structure Completes
    (all declared : List Directive) : Prop where
  notBuiltin : NotBuiltin declared
  perm : all.Perm
    (declared ++ BuiltinDirective.all.map .builtin)

variable {all declared : List Directive} {file : Option String}

theorem NotBuiltin.add
    (h : NotBuiltin declared)
    {directive : CustomDirective}
    (hAdmits : Admits declared directive.name) :
    NotBuiltin (declared ++ [.custom directive]) := by
  intro other hOther
  rcases List.mem_append.1 hOther with hBefore | hNew
  · exact h other hBefore
  · rw [List.mem_singleton.1 hNew]
    exact hAdmits.notBuiltin

/- A pass that declared its directives lacks all others. -/
theorem allDirectives_of_declared
    {pass : Pass}
    (h : NotBuiltin pass.directives) :
    pass.allDirectives =
      pass.directives ++ BuiltinDirective.all.map .builtin := by
  unfold allDirectives
  rw [List.filter_eq_self.2]
  intro builtin hBuiltin
  simp only [Bool.not_eq_true', List.any_eq_false, beq_iff_eq]
  intro directive hDirective hSame
  exact h directive hDirective builtin hBuiltin hSame.symm

namespace Completes

theorem mem_iff
    (h : Completes all declared)
    (directive : Directive) :
    directive ∈ all ↔
      directive ∈ declared ∨
        ∃ builtin ∈ BuiltinDirective.all,
          .builtin builtin = directive := by
  rw [h.perm.mem_iff, List.mem_append, List.mem_map]

/- No directive is missing. -/
theorem allDirectives_eq
    {pass : Pass}
    (h : Completes pass.directives declared) :
    pass.allDirectives = pass.directives := by
  unfold allDirectives
  rw [List.filter_eq_nil_iff.2]
  · exact List.append_nil pass.directives
  intro builtin hBuiltin
  simp only [Bool.not_eq_true', Bool.not_eq_false,
    List.any_eq_true, beq_iff_eq]
  exact
    ⟨.builtin builtin,
      (h.mem_iff _).2 (.inr ⟨builtin, hBuiltin, rfl⟩), rfl⟩

/- With those that are missing they are the same. -/
theorem allDirectives_perm
    {pass pass' : Pass}
    (h : Completes pass.directives pass'.directives) :
    pass.allDirectives.Perm pass'.allDirectives := by
  rw [h.allDirectives_eq, allDirectives_of_declared h.notBuiltin]
  exact h.perm

/- The same names are free. -/
theorem admits_iff
    (h : Completes all declared)
    (name : String) :
    Admits all name ↔ Admits declared name := by
  constructor
  · intro hParts
    rcases hParts with ⟨hBuiltin, hReserved, hNew⟩
    refine ⟨hBuiltin, hReserved, ?_⟩
    intro directive hDirective
    exact hNew directive ((h.mem_iff _).2 (.inl hDirective))
  · intro hParts
    rcases hParts with ⟨hBuiltin, hReserved, hNew⟩
    refine ⟨hBuiltin, hReserved, ?_⟩
    intro directive hDirective
    rcases (h.mem_iff _).1 hDirective with
      hDeclared | ⟨builtin, hMem, rfl⟩
    · exact hNew directive hDeclared
    · exact hBuiltin builtin hMem

/- A directive is added before or after the built-in ones. -/
theorem add
    (h : Completes all declared)
    {directive : CustomDirective}
    (hAdmits : Admits declared directive.name) :
    Completes (all ++ [.custom directive])
      (declared ++ [.custom directive]) := by
  have hPerm := h.perm.append_right [.custom directive]
  exact
    ⟨h.notBuiltin.add hAdmits,
      hPerm.trans (append_swap_perm _ _ _)⟩

/- Directives are taken alike. -/
theorem same_takeDirective
    (all declared : List Directive)
    (definition : TypeSystemDefinition)
    (h : Completes all declared) :
    Results.Same Completes (takeDirective file all definition)
      (takeDirective file declared definition) := by
  cases definition with
  | directive definition =>
      refine ⟨?_, ?_⟩
      · intro all' hAll
        rw [takeDirective_directive_eq_ok_iff] at hAll
        rcases hAll with ⟨hAdmits, rfl⟩
        rw [h.admits_iff] at hAdmits
        exact
          ⟨_, takeDirective_directive_eq_ok_iff.2
            ⟨hAdmits, rfl⟩, h.add hAdmits⟩
      · intro declared' hDeclared
        rw [takeDirective_directive_eq_ok_iff] at hDeclared
        rcases hDeclared with ⟨hAdmits, rfl⟩
        exact
          ⟨_, takeDirective_directive_eq_ok_iff.2
            ⟨(h.admits_iff _).2 hAdmits, rfl⟩,
            h.add hAdmits⟩
  | _ => exact .ok h

end Completes

/- Directives of documents are not named like built-in ones. -/
theorem completes_of_takeDirectives
    {pass : Pass}
    {document : TypeSystemDocument}
    (h : document.foldlM (takeDirective file) [] =
      .ok pass.directives) :
    Completes pass.allDirectives pass.directives := by
  have hStep : ∀ known definition next,
      takeDirective file known definition = .ok next →
      NotBuiltin known → NotBuiltin next := by
    intro known definition next hNext hKnown
    cases definition with
    | directive definition =>
        rw [takeDirective_directive_eq_ok_iff] at hNext
        rcases hNext with ⟨hAdmits, rfl⟩
        exact hKnown.add hAdmits
    | _ =>
        cases hNext
        exact hKnown
  have hDeclared : NotBuiltin pass.directives :=
    Results.foldlM_keeps hStep h (by simp [NotBuiltin])
  refine ⟨hDeclared, ?_⟩
  rw [allDirectives_of_declared hDeclared]

end Pass

------------------------------------------------------------
-- Types
------------------------------------------------------------

namespace Draft

variable {draft next last : Draft} {file : Option String}

/- Types stay what they are and where they stand. -/
def Keeps (draft next : Draft) : Prop :=
  ∀ name entry, draft.find? name = some entry →
    ∃ entry', next.find? name = some entry' ∧
      entry'.type.kind = entry.type.kind ∧
      entry'.type.location = entry.type.location

theorem Keeps.refl (draft : Draft) : draft.Keeps draft :=
  fun _ entry hEntry => ⟨entry, hEntry, rfl, rfl⟩

theorem Keeps.trans
    (h : draft.Keeps next)
    (h' : next.Keeps last) : draft.Keeps last := by
  intro name entry hEntry
  rcases h name entry hEntry with
    ⟨middle, hMiddle, hKind, hLocation⟩
  rcases h' name middle hMiddle with
    ⟨final, hFinal, hKind', hLocation'⟩
  exact
    ⟨final, hFinal, hKind'.trans hKind,
      hLocation'.trans hLocation⟩

theorem Applies.keeps
    {waiting : SourceLocation × TypeExtension}
    (h : Applies waiting draft next) : draft.Keeps next := by
  intro name entry hEntry
  rcases h.exists_find? hEntry with
    ⟨entry', hEntry', rfl | hType⟩
  · exact ⟨entry', hEntry', rfl, rfl⟩
  · rcases hType.kept with ⟨hKind, -, hLocation⟩
    exact ⟨entry', hEntry', hKind, hLocation⟩

/- Definitions and extensions keep the types that are there. -/
theorem keeps_of_takeStage
    {definition : TypeSystemDefinition}
    {stage stage' : Stage}
    (h : takeStage file stage definition = .ok stage') :
    stage.1.Keeps stage'.1 := by
  cases takeStage_eq_ok_iff.1 h with
  | type _ hDraft =>
      rcases define_eq_ok_iff.1 hDraft with ⟨-, -, -, rfl⟩
      intro name entry hEntry
      refine ⟨entry, ?_, rfl, rfl⟩
      rw [find?_append, hEntry, Option.some_or]
  | applied hApplies => exact hApplies.keeps
  | waits | schema | directive => exact .refl _

/- So do all of a document and all that waits. -/
theorem keeps_of_run
    {document : TypeSystemDocument}
    {stage stage' : Stage}
    (h : document.foldlM (takeStage file) stage = .ok stage')
    (hSettled : settleKinds stage' = .ok last) :
    stage.1.Keeps last := by
  have hStep : ∀ before definition next,
      takeStage file before definition = .ok next →
      stage.1.Keeps before.1 → stage.1.Keeps next.1 :=
    fun _ _ _ hNext hBefore =>
      hBefore.trans (keeps_of_takeStage hNext)
  have hSettle : ∀ before waiting next,
      Pass.settleOne before waiting = .ok next →
      stage.1.Keeps before → stage.1.Keeps next :=
    fun _ _ _ hNext hBefore =>
      hBefore.trans (settleOne_eq_ok_iff.1 hNext).keeps
  have hTaken := Results.foldlM_keeps hStep h (.refl stage.1)
  exact Results.foldlM_keeps hSettle hSettled hTaken

end Draft

------------------------------------------------------------
-- Graphs
------------------------------------------------------------

namespace TypeGraph

variable {graph graph' base : TypeGraph} {draft draft' : Draft}

/- A defined type of a graph is carried over under its name. -/
theorem find?_ofGraph
    {name : String}
    {type : TypeDef}
    (h : graph.lookup name = some (.defined type)) :
    (Draft.ofGraph graph).find? name = some ⟨type, false⟩ := by
  have hName : type.name = name := name_of_lookup h
  cases hFound : (Draft.ofGraph graph).find? name with
  | none =>
      rw [Draft.find?_eq_none_iff] at hFound
      refine absurd hName (hFound ⟨type, false⟩ ?_)
      exact List.mem_filterMap.2 ⟨_, mem_of_lookup h, rfl⟩
  | some entry =>
      have hEntryName := Draft.name_of_find? hFound
      rcases List.mem_filterMap.1
          (List.mem_of_find?_eq_some hFound) with
        ⟨other, hOther, hEntry⟩
      have hLookup := lookup_of_mem hOther
      cases other with
      | builtin scalar => cases hEntry
      | defined other =>
          cases hEntry
          have hOtherName : (NamedType.defined other).name = name :=
            hEntryName
          rw [hOtherName, h] at hLookup
          cases hLookup
          rfl

/- The types of a draft are found in its graph. -/
theorem lookup_of_registerAll
    (h : draft.foldlM Pass.registerEntry .builtin = .ok graph)
    {name : String}
    {entry : DraftEntry}
    (hEntry : draft.find? name = some entry) :
    graph.lookup name = some (.defined entry.type) := by
  have hMem : .defined entry.type ∈ graph.types := by
    rw [types_of_registerAll h]
    exact List.mem_append_right _
      (List.mem_map.2
        ⟨entry, List.mem_of_find?_eq_some hEntry, rfl⟩)
  have hLookup := lookup_of_mem hMem
  have hName : (NamedType.defined entry.type).name = name :=
    Draft.name_of_find? hEntry
  rwa [hName] at hLookup

/- The defined types of a graph are those of its draft. -/
theorem exists_entry_of_registerAll
    (h : draft.foldlM Pass.registerEntry .builtin = .ok graph)
    {type : TypeDef}
    (hType : .defined type ∈ graph.types) :
    ∃ entry, draft.find? type.name = some entry ∧
      entry.type = type := by
  have hLookup := lookup_of_mem hType
  cases hFound : draft.find? type.name with
  | some entry =>
      have hEntry := lookup_of_registerAll h hFound
      rw [show (NamedType.defined type).name = type.name from rfl,
        hEntry] at hLookup
      cases hLookup
      exact ⟨entry, rfl, rfl⟩
  | none =>
      rw [types_of_registerAll h] at hType
      rcases List.mem_append.1 hType with hBuiltin | hDefined
      · rcases List.mem_map.1 hBuiltin with ⟨scalar, -, hSame⟩
        cases hSame
      · rcases List.mem_map.1 hDefined with
          ⟨entry, hEntry, hSame⟩
        cases hSame
        rw [Draft.find?_eq_none_iff] at hFound
        exact absurd rfl (hFound entry hEntry)

/- Types that are carried over are specified as they were. -/
theorem specified_ofGraph
    (h : draft.foldlM Pass.registerEntry .builtin = .ok graph)
    (hDraft : draft.Specified) :
    (Draft.ofGraph graph).Specified := by
  intro entry hEntry
  rcases List.mem_filterMap.1 hEntry with ⟨type, hType, hSame⟩
  cases type with
  | builtin scalar => cases hSame
  | defined type =>
      cases hSame
      rcases exists_entry_of_registerAll h hType with
        ⟨entry, hFound, rfl⟩
      exact hDraft entry (List.mem_of_find?_eq_some hFound)

section

variable (hDraft : draft.foldlM Pass.registerEntry .builtin =
  .ok graph)
variable (hDraft' : draft'.foldlM Pass.registerEntry .builtin =
  .ok graph')
variable (hSpecified : draft.Specified)
variable (hSpecified' : draft'.Specified)
variable (hOnce : ∀ name, draft'.specifications name ≤ 1)

include hDraft hDraft' hSpecified hSpecified' hOnce

/- Types that are specified once agree if they are alike. -/
theorem agrees_of_mem
    {type type' : NamedType}
    (hType : type ∈ graph.types)
    (hType' : type' ∈ graph'.types)
    (h : type.Alike type') : type.Agrees type' := by
  cases h with
  | builtin => exact .builtin
  | defined hAlike =>
      rcases exists_entry_of_registerAll hDraft hType with
        ⟨entry, hEntry, rfl⟩
      rcases exists_entry_of_registerAll hDraft' hType' with
        ⟨entry', hEntry', rfl⟩
      have hFirst :=
        hSpecified entry (List.mem_of_find?_eq_some hEntry)
      have hSecond :=
        hSpecified' entry' (List.mem_of_find?_eq_some hEntry')
      have hCount := hOnce entry'.type.name
      rw [Draft.specifications, hEntry'] at hCount
      exact .defined (hAlike.agrees hFirst hSecond hCount)

theorem agrees_of_alike (h : graph.Alike graph') :
    List.Forall₂ NamedType.Agrees graph.types graph'.types := by
  unfold Alike at h
  rw [List.forall₂_iff_get] at h ⊢
  refine ⟨h.1, fun place hPlace hPlace' => ?_⟩
  exact agrees_of_mem hDraft hDraft' hSpecified hSpecified' hOnce
    (List.get_mem _ _) (List.get_mem _ _)
    (h.2 place hPlace hPlace')

end

/- An object that a draft keeps is found where it stood. -/
theorem exists_object_of_keeps
    (h : draft.foldlM Pass.registerEntry .builtin = .ok graph)
    (hKeeps : (Draft.ofGraph base).Keeps draft)
    {name : String}
    {type : ObjectType}
    (hType : base.lookup name = some (.defined (.object type))) :
    ∃ type', graph.lookup name =
        some (.defined (.object type')) ∧
      type'.header.location = type.header.location := by
  rcases hKeeps name _ (find?_ofGraph hType) with
    ⟨⟨type', touched⟩, hEntry, hKind, hLocation⟩
  have hLookup := lookup_of_registerAll h hEntry
  cases type' with
  | object type' => exact ⟨type', hLookup, hLocation⟩
  | _ => cases hKind

end TypeGraph

------------------------------------------------------------
-- Root Types
------------------------------------------------------------

namespace Pass

variable {graph graph' base : TypeGraph}
variable {operation : OperationKind}

/- Root types are settled alike in graphs that match. -/
theorem same_settleRoot
    (h : graph.Matches graph')
    (operation : OperationKind)
    (declared? : Option RootReference) :
    Results.Same Eq (settleRoot graph operation declared?)
      (settleRoot graph' operation declared?) := by
  cases declared? with
  | some ref =>
      have hFound := h.lookup ref.type
      unfold settleRoot
      simp only
      generalize graph.lookup ref.type = found at hFound ⊢
      generalize graph'.lookup ref.type = found' at hFound ⊢
      cases hFound with
      | none => exact .refl (fun _ => rfl) _
      | some hTypes =>
          cases hTypes with
          | builtin => exact .refl (fun _ => rfl) _
          | defined hTypes =>
              cases hTypes <;> exact .refl (fun _ => rfl) _
  | none =>
      have hFound := h.lookup operation.name
      unfold settleRoot
      simp only
      generalize graph.lookup operation.name = found at hFound ⊢
      generalize graph'.lookup operation.name = found'
        at hFound ⊢
      cases hFound with
      | none => exact .refl (fun _ => rfl) _
      | some hTypes =>
          cases hTypes with
          | builtin => exact .refl (fun _ => rfl) _
          | defined hTypes =>
              cases hTypes with
              | object hHeader _ _ =>
                  simp only [hHeader.location_eq]
                  exact .refl (fun _ => rfl) _
              | _ => exact .refl (fun _ => rfl) _

/-
  A root type that was settled is settled again as it was
  declared, if objects are kept.
-/
theorem settleRoot_eq_of_kept
    {declared? root? : Option RootReference}
    (hRoot : settleRoot base operation declared? = .ok root?)
    (hKept : ∀ type,
      base.lookup operation.name =
        some (.defined (.object type)) →
      ∃ type', graph.lookup operation.name =
          some (.defined (.object type')) ∧
        type'.header.location = type.header.location) :
    settleRoot graph operation root? =
      settleRoot graph operation declared? := by
  unfold settleRoot at hRoot
  split at hRoot
  · split at hRoot
    · cases hRoot
      rfl
    · cases hRoot
  · split at hRoot
    · next type hType =>
        cases hRoot
        rcases hKept type hType with ⟨type', hType', hLocation⟩
        simp [settleRoot, hType', hLocation, NamedType.object?]
    · cases hRoot
      rfl

------------------------------------------------------------
-- Schemas
------------------------------------------------------------

/-
  Passes whose graphs match and whose roots are the same both
  assemble a schema, or neither does.
-/
theorem same_assemble
    {pass pass' : Pass}
    {Like : Schema → Schema → Prop}
    (h : graph.Matches graph')
    (hRoots : ∀ operation,
      Results.Same Eq
        (settleRoot graph operation (pass.roots.get? operation))
        (settleRoot graph' operation
          (pass'.roots.get? operation)))
    (hLike : ∀ schema schema' : Schema,
      schema.types = graph → schema'.types = graph' →
      schema.roots = schema'.roots →
      schema.directives = pass.allDirectives →
      schema'.directives = pass'.allDirectives →
      Like schema schema') :
    Results.Same Like (pass.assemble graph)
      (pass'.assemble graph') := by
  unfold assemble
  apply h.same_validate.bind
  rintro _ _ - - -
  apply (hRoots .query).bind
  rintro query? _ - - rfl
  cases query? with
  | none => exact .failed (by simp) (by simp)
  | some query =>
      apply (hRoots .mutation).bind
      rintro mutation? _ - - rfl
      apply (hRoots .subscription).bind
      rintro subscription? _ - - rfl
      exact .ok (hLike _ _ rfl rfl rfl rfl rfl)

/- The schema of a pass that takes one more document. -/
def continued
    (pass : Pass)
    (document : TypeSystemDocument) :
    Except BuildError Schema := do
  let draft ←
    document.foldlM (Draft.takeStage none) pass.stage >>=
      Draft.settleKinds
  let directives ←
    document.foldlM (takeDirective none) pass.directives
  let graph ← draft.foldlM registerEntry .builtin
  (pass.atStage ([], []) directives).assemble graph

/- Types and directives are taken independently. -/
theorem same_continued
    {document : TypeSystemDocument}
    (hRoots : ∀ block, .schema block ∉ document)
    (pass : Pass) :
    Results.Same Eq
      (pass.load none document >>= fun pass => pass.build none)
      (pass.continued document) := by
  apply Results.Same.of_ok_iff
  intro schema
  unfold continued
  simp only [Results.bind_eq_ok_iff, load_eq_ok_iff hRoots,
    build_eq_ok_iff]
  constructor
  · intro hParts
    rcases hParts with
      ⟨_, ⟨stage, directives, hStage, hDirectives, rfl⟩,
       draft, graph, hDraft, hGraph, hSchema⟩
    exact
      ⟨draft, ⟨stage, hStage, hDraft⟩, directives, hDirectives,
        graph, hGraph, hSchema⟩
  · intro hParts
    rcases hParts with
      ⟨draft, ⟨stage, hStage, hDraft⟩, directives,
       hDirectives, graph, hGraph, hSchema⟩
    exact
      ⟨_, ⟨stage, directives, hStage, hDirectives, rfl⟩, draft,
        graph, hDraft, hGraph, hSchema⟩

/- A schema that is extended keeps its root types. -/
theorem same_settleRoot_of_keeps
    {pass : Pass}
    {schema : Schema}
    {draft : Draft}
    (h : pass.assemble base = .ok schema)
    (hDraft : draft.foldlM registerEntry .builtin = .ok graph)
    (hKeeps : (Draft.ofGraph base).Keeps draft)
    (hGraphs : graph.Alike graph')
    (operation : OperationKind) :
    Results.Same Eq
      (settleRoot graph operation (schema.roots.get? operation))
      (settleRoot graph' operation
        (pass.roots.get? operation)) := by
  rcases assemble_eq_ok_iff.1 h with ⟨-, -, -, hRoots⟩
  have hSettle :=
    @settleRoot_eq_of_kept graph base operation _ _
      (hRoots operation)
      fun type hType =>
        TypeGraph.exists_object_of_keeps hDraft hKeeps hType
  have hSame := same_settleRoot hGraphs.matches operation
    (pass.roots.get? operation)
  rw [← hSettle] at hSame
  exact hSame

end Pass

namespace Schema

/- Build a schema from documents that come without a file. -/
def ofDocuments (documents : List TypeSystemDocument) :
    Except BuildError Schema := do
  let pass ← documents.foldlM
    (fun pass document => Pass.load pass none document) .empty
  pass.build none

/- A pass that extends a schema continues the one it is of. -/
theorem same_continued_ofSchema
    {first second : TypeSystemDocument}
    {pass : Pass}
    {base : Schema}
    (hPass : Pass.empty.load none first = .ok pass)
    (hBuild : pass.build none = .ok base)
    (hOnce : ∀ name,
      ((first ++ second).flatMap
        (TypeSystemDefinition.specifications name)).length ≤
          1) :
    Results.Same Agrees ((Pass.ofSchema base).continued second)
      (pass.continued second) := by
  rcases Pass.of_load hPass with ⟨hStage, hDirectives⟩
  rcases Pass.build_eq_ok_iff.1 hBuild with
    ⟨settled, graph, hSettled, hGraph, hAssemble⟩
  rcases Pass.assemble_eq_ok_iff.1 hAssemble with
    ⟨rfl, hBaseDirectives, -⟩
  apply (Draft.same_takeStage_settleKinds second hSettled
    (TypeGraph.ofGraph_alike hGraph)).bind
  intro draft draft' hDraft hDraft' hAlike
  rcases Results.bind_eq_ok_iff.1 hDraft with
    ⟨last, hLast, hDraft⟩
  rcases Results.bind_eq_ok_iff.1 hDraft' with
    ⟨last', hLast', hDraft'⟩
  -- Scalars are specified alike, as they are specified once.
  have hStart : pass.stage.1.Specified :=
    Draft.specified_of_takeStages hStage Draft.specified_nil
  have hCarried :=
    TypeGraph.specified_ofGraph hGraph
      (Draft.specified_of_settleKinds hSettled hStart)
  have hSpecified :=
    Draft.specified_of_settleKinds hDraft
      (Draft.specified_of_takeStages hLast hCarried)
  have hSpecified' :=
    Draft.specified_of_settleKinds hDraft'
      (Draft.specified_of_takeStages hLast' hStart)
  have hAll : (first ++ second).foldlM (Draft.takeStage none)
      Pass.empty.stage = .ok last' := by
    rw [List.foldlM_append, hStage]
    exact hLast'
  have hOnce' : ∀ name, draft'.specifications name ≤ 1 :=
    fun name => Nat.le_trans
      (Draft.specifications_le hAll hDraft' name) (hOnce name)
  -- The schema that is extended has all directives from the start.
  have hCompletes : Pass.Completes base.directives
      pass.directives := by
    rw [hBaseDirectives]
    exact Pass.completes_of_takeDirectives hDirectives
  apply (Results.same_foldlM
    (@Pass.Completes.same_takeDirective none) second
    hCompletes).bind
  intro all declared _ _ hCompletes
  apply (TypeGraph.same_registerAll hAlike).bind
  intro graph graph' hGraph hGraph' hGraphs
  apply Pass.same_assemble hGraphs.matches
  · have hRoots := Pass.same_settleRoot_of_keeps hAssemble
      hGraph (Draft.keeps_of_run hLast hDraft) hGraphs
    exact hRoots
  · rintro ⟨_, _, _, _, _⟩ ⟨_, _, _, _, _⟩ rfl rfl ⟨⟩ rfl rfl
    exact
      ⟨TypeGraph.agrees_of_alike hGraph hGraph' hSpecified
          hSpecified' hOnce' hGraphs, rfl, rfl, rfl,
        Pass.Completes.allDirectives_perm hCompletes⟩

/-
  Extending the schema of a document by another one is building
  the schema of both, up to the order in which extensions added
  to types. The other one names no root types, and no scalar is
  specified twice.
-/
theorem same_extend_ofDocuments
    {first second : TypeSystemDocument}
    {base : Schema}
    (hBase : ofDocuments [first] = .ok base)
    (hRoots : ∀ block, .schema block ∉ second)
    (hOnce : ∀ name,
      ((first ++ second).flatMap
        (TypeSystemDefinition.specifications name)).length ≤
          1) :
    Results.Same Agrees (base.extend [second] none)
      (ofDocuments [first, second]) := by
  unfold extend
  unfold ofDocuments at hBase ⊢
  simp only [List.foldlM_cons, List.foldlM_nil, bind_pure,
    bind_assoc] at hBase ⊢
  rcases Results.bind_eq_ok_iff.1 hBase with
    ⟨pass, hPass, hBuild⟩
  rw [hPass]
  have hWhole := (Pass.same_continued hRoots pass).symm
    fun _ _ h => h.symm
  apply (Pass.same_continued hRoots (.ofSchema base)).eq_trans
  exact (same_continued_ofSchema hPass hBuild hOnce).trans_eq
    hWhole

end Schema

------------------------------------------------------------
-- A Catalogue
------------------------------------------------------------

namespace Catalogue

/- More declarations: films, and numbers of books. -/
def supplement : TypeSystemDocument :=
  [ .extension
      ⟨position, "Film", [],
        .object [] [declared "minutes" (.named "Int")]⟩,
    .extension
      ⟨position, "Book", [],
        .object [] [declared "number" (.named "Isbn")]⟩,
    .type
      ⟨position, none, "Isbn",
        [⟨position, "specifiedBy", [("url", .string "isbn.org")]⟩],
        .scalar⟩,
    .type
      ⟨position, none, "Film", [],
        .object ["Item"]
          [declared "title" (.nonNull (.named "String"))]⟩]

theorem ofDocuments_document :
    Schema.ofDocuments [document] = .ok schema := by
  simp only [Schema.ofDocuments, List.foldlM_cons,
    List.foldlM_nil, load_document]
  exact build_pass

/- No scalar of the declarations is specified twice. -/
theorem specifications_le_one (name : String) :
    ((document ++ supplement).flatMap
      (TypeSystemDefinition.specifications name)).length ≤
        1 := by
  simp only [document, supplement, List.cons_append,
    List.nil_append, List.flatMap_cons, List.flatMap_nil,
    TypeSystemDefinition.specifications,
    TypeExtension.specifications,
    TypeContent.specifications, ite_self]
  split <;> simp

/- The catalogue may be extended or built at once. -/
theorem supplement_agrees :
    ∃ extended whole,
      schema.extend [supplement] none = .ok extended ∧
        Schema.ofDocuments [document, supplement] =
          .ok whole ∧
        extended.Agrees whole := by
  have hOk : (schema.extend [supplement] none).isOk = true := by
    with_unfolding_all rfl
  have hSame := Schema.same_extend_ofDocuments
    ofDocuments_document (by simp [supplement])
    specifications_le_one
  cases hExtended : schema.extend [supplement] none with
  | error error =>
      rw [hExtended] at hOk
      cases hOk
  | ok extended =>
      rcases hSame.1 extended hExtended with
        ⟨whole, hWhole, hAgrees⟩
      exact ⟨extended, whole, rfl, hWhole, hAgrees⟩

end Catalogue

end GraphQL
