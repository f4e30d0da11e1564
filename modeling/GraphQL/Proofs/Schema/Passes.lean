import GraphQL.Schema.Build
import GraphQL.Proofs.Schema.ExtensionOrder

/-
  Passes by their parts: the types that a document adds to a
  pass and the directives that it adds do not affect each
  other, and a pass ends with the types of its draft.

  Key definitions include:
    * `Pass.stage`, `Pass.atStage`
    * `Pass.takeDirective`
    * `Draft.settleKinds`: apply what waits, kind by kind

  Main declarations:
    * `Pass.of_load`, `Pass.load_eq_ok_iff`
    * `Pass.build_decorated_eq_ok_iff`, `Pass.build_eq_ok_iff`
    * `Draft.same_takeStage_settleKinds`
-/

------------------------------------------------------------
-- Waiting Extensions
------------------------------------------------------------

namespace GraphQL

namespace Pass

/- The draft of a pass, and what waits for its types. -/
def stage (pass : Pass) : Draft.Stage :=
  (pass.draft, pass.waiting)

/- A pass with other types and directives. -/
def atStage
    (pass : Pass)
    (stage : Draft.Stage)
    (directives : List Directive) : Pass :=
  { pass with
    draft := stage.1
    waiting := stage.2
    directives := directives }

/- Every waiting extension is settled once. -/
theorem settlingList_perm (pass : Pass) :
    pass.settlingList.Perm pass.waiting := by
  classical
  rw [List.perm_iff_count]
  intro waiting
  have hCount : ∀ kind,
      (pass.waiting.filter fun other =>
          other.2.content.kind == kind).count waiting =
        if waiting.2.content.kind = kind then
          pass.waiting.count waiting
        else
          0 := by
    intro kind
    split
    · next hKind => exact List.count_filter (by simp [hKind])
    · next hKind =>
        rw [List.count_eq_zero]
        intro hMem
        have hSame := (List.mem_filter.1 hMem).2
        exact hKind (by simpa using hSame)
  simp only [settlingList, settlingOrder, List.flatMap_cons,
    List.flatMap_nil, List.count_append, hCount]
  cases waiting.2.content <;> simp [TypeContent.kind]

end Pass

namespace Draft

/- Apply all extensions that wait, kind by kind. -/
def settleKinds (stage : Stage) : Except BuildError Draft :=
  (Pass.empty.atStage stage []).settle

theorem settle_eq (pass : Pass) :
    pass.settle = settleKinds pass.stage :=
  rfl

/- The kinds of extensions make no difference. -/
theorem same_settleKinds (stage : Stage) :
    Results.Same Draft.Alike (settleKinds stage)
      (settleStage stage) :=
  same_settleAll_of_perm (Pass.settlingList_perm _)
    (alike_equivalence.refl stage.1)

variable {file : Option String}

/- Taking a document and settling depends on what is alike. -/
theorem same_takeType
    {draft draft' : Draft}
    (definition : TypeSystemDefinition)
    (h : draft.Alike draft') :
    Results.Same Draft.Alike (takeType file draft definition)
      (takeType file draft' definition) := by
  cases definition with
  | type definition =>
      apply Results.Same.bind_left
      intro type hType
      exact same_define h
  | _ => exact .ok h

/-
  Taking a document and settling is taking its types, applying
  what waited before, and then applying its own extensions.
-/
theorem same_typesFirst
    (document : TypeSystemDocument)
    (stage : Stage) :
    Results.Same Draft.Alike
      (document.foldlM (takeStage file) stage >>= settleKinds)
      (document.foldlM (takeType file) stage.1 >>= fun draft =>
        stage.2.foldlM Pass.settleOne draft >>= fun draft =>
          (document.filterMap (extension? file)).foldlM
            Pass.settleOne draft) := by
  have hKinds : Results.Same Draft.Alike
      (document.foldlM (takeStage file) stage >>= settleKinds)
      (document.foldlM (takeStage file) stage >>=
        settleStage) :=
    .bind_left fun next _ => same_settleKinds next
  have hTypes := hKinds.trans
    (@same_takeStage_settleStage file document stage)
    fun _ _ _ => alike_equivalence.trans
  simpa only [settleStage, List.foldlM_append] using hTypes

/-
  A document may be taken before or after the extensions that
  wait are applied, if they can be.
-/
theorem same_takeStage_settleKinds
    (document : TypeSystemDocument)
    {stage : Stage}
    {settled draft : Draft}
    (hSettled : settleKinds stage = .ok settled)
    (h : draft.Alike settled) :
    Results.Same Draft.Alike
      (document.foldlM (takeStage file) (draft, []) >>=
        settleKinds)
      (document.foldlM (takeStage file) stage >>=
        settleKinds) := by
  let extend (draft : Draft) :=
    (document.filterMap (extension? file)).foldlM
      Pass.settleOne draft
  rcases (same_settleKinds stage).1 settled hSettled with
    ⟨applied, hApplied, hAlike⟩
  have hSeparate : Results.Same Draft.Alike
      (document.foldlM (takeStage file) (draft, []) >>=
        settleKinds)
      (document.foldlM (takeType file) draft >>= extend) :=
    same_typesFirst document (draft, [])
  have hFollow : Results.Same Draft.Alike
      (document.foldlM (takeType file) draft >>= extend)
      (document.foldlM (takeType file) applied >>= extend) := by
    have hTypes := Results.same_foldlM
      (fun _ _ definition => @same_takeType file _ _ definition)
      document (alike_equivalence.trans h hAlike)
    apply hTypes.bind
    intro next next' _ _ hNext
    exact same_settleAll_of_perm (.refl _) hNext
  have hBefore : Results.Same Eq
      (document.foldlM (takeType file) applied >>= extend)
      (document.foldlM (takeType file) stage.1 >>= fun draft =>
        stage.2.foldlM Pass.settleOne draft >>= extend) := by
    have hTypes := @same_takeTypes_settleAll file document
      stage.2 stage.1 fun extension hExtension =>
        (known_of_settleAll hApplied extension hExtension).2
    have hAll := hTypes.bind_right extend
    unfold settleStage at hApplied
    rw [hApplied] at hAll
    simp only [bind_assoc] at hAll
    exact hAll
  have hTogether := (@same_typesFirst file document stage).symm
    fun _ _ => alike_equivalence.symm
  exact ((hSeparate.trans hFollow
    fun _ _ _ => alike_equivalence.trans).trans_eq hBefore).trans
      hTogether fun _ _ _ => alike_equivalence.trans

end Draft

------------------------------------------------------------
-- Directives
------------------------------------------------------------

namespace Pass

variable {pass next : Pass} {file : Option String}

/- A directive whose name may be given to a further one. -/
structure Admits
    (known : List Directive)
    (name : String) : Prop where
  notBuiltin : ∀ builtin ∈ BuiltinDirective.all,
    builtin.name ≠ name
  notReserved : Name.isReserved name = false
  isNew : ∀ directive ∈ known, directive.name ≠ name

/- A directive is defined under a name that is free. -/
theorem defineDirective_eq_ok_iff
    {location : SourceLocation}
    {definition : DirectiveDefinition} :
    pass.defineDirective location definition = .ok next ↔
      Admits pass.directives definition.name ∧
        next = pass.atStage pass.stage
          (pass.directives ++
            [.custom (customDirective location definition)]) := by
  unfold defineDirective
  simp only
  constructor
  · intro h
    split at h
    · cases h
    · next hBuiltin =>
        split at h
        · cases h
        · next hReserved =>
            split at h
            · cases h
            · next hNone =>
                cases h
                refine ⟨⟨?_, by simpa using hReserved, ?_⟩, rfl⟩
                · simpa using hBuiltin
                · simpa using hNone
  · intro hParts
    rcases hParts with ⟨⟨hBuiltin, hReserved, hNew⟩, rfl⟩
    have hNone : (pass.directives.find? fun directive =>
        directive.name == definition.name) = none := by
      simpa using hNew
    rw [if_neg (by simpa using hBuiltin),
      if_neg (by simp [hReserved]), hNone]
    rfl

/- Take a directive that a document defines. -/
def takeDirective
    (file : Option String)
    (known : List Directive) :
    TypeSystemDefinition → Except BuildError (List Directive)
| .directive definition => do
    let start := Pass.empty.atStage ([], []) known
    let pass ← start.defineDirective
      (.ofSchema file definition.position) definition
    return pass.directives
| _ => return known

theorem takeDirective_directive_eq_ok_iff
    {known all : List Directive}
    {definition : DirectiveDefinition} :
    takeDirective file known (.directive definition) = .ok all ↔
      Admits known definition.name ∧
        all = known ++
          [.custom
            (customDirective (.ofSchema file definition.position)
              definition)] := by
  unfold takeDirective
  simp only [Results.bind_eq_ok_iff, defineDirective_eq_ok_iff]
  constructor
  · intro hParts
    rcases hParts with ⟨_, ⟨hAdmits, rfl⟩, hAll⟩
    cases hAll
    exact ⟨hAdmits, rfl⟩
  · intro hParts
    rcases hParts with ⟨hAdmits, rfl⟩
    exact ⟨_, ⟨hAdmits, rfl⟩, rfl⟩

------------------------------------------------------------
-- Documents
------------------------------------------------------------

/- Definitions add to the types and to the directives. -/
theorem take_eq_ok_iff
    {definition : TypeSystemDefinition}
    (h : ∀ block, definition ≠ .schema block) :
    take file pass definition = .ok next ↔
      ∃ stage directives,
        Draft.takeStage file pass.stage definition =
            .ok stage ∧
          takeDirective file pass.directives definition =
            .ok directives ∧
          next = pass.atStage stage directives := by
  cases definition with
  | schema block => exact absurd rfl (h block)
  | type definition =>
      simp only [take, define, Draft.takeStage, takeDirective,
        Results.bind_eq_ok_iff]
      constructor
      · intro hParts
        rcases hParts with ⟨type, hType, draft, hDraft, hNext⟩
        cases hNext
        exact
          ⟨_, _, ⟨type, hType, draft, hDraft, rfl⟩, rfl, rfl⟩
      · intro hParts
        rcases hParts with
          ⟨_, _, ⟨type, hType, draft, hDraft, hStage⟩,
           hDirectives, rfl⟩
        cases hStage
        cases hDirectives
        exact ⟨type, hType, draft, hDraft, rfl⟩
  | extension extension =>
      simp only [take, extend, Draft.takeStage, takeDirective,
        Results.bind_eq_ok_iff]
      constructor
      · intro hParts
        rcases hParts with ⟨found?, hFound, hNext⟩
        cases found? with
        | none =>
            cases hNext
            exact ⟨_, _, ⟨none, hFound, rfl⟩, rfl, rfl⟩
        | some found =>
            cases hNext
            exact ⟨_, _, ⟨some found, hFound, rfl⟩, rfl, rfl⟩
      · intro hParts
        rcases hParts with
          ⟨_, _, ⟨found?, hFound, hStage⟩,
           hDirectives, rfl⟩
        cases hDirectives
        refine ⟨found?, hFound, ?_⟩
        cases found? with
        | none =>
            cases hStage
            rfl
        | some found =>
            cases hStage
            rfl
  | directive definition =>
      simp only [take, Draft.takeStage,
        defineDirective_eq_ok_iff,
        takeDirective_directive_eq_ok_iff]
      constructor
      · intro hParts
        rcases hParts with ⟨hAdmits, rfl⟩
        exact ⟨_, _, rfl, ⟨hAdmits, rfl⟩, rfl⟩
      · intro hParts
        rcases hParts with ⟨_, _, hStage, ⟨hAdmits, rfl⟩, rfl⟩
        cases hStage
        exact ⟨hAdmits, rfl⟩

/- Root types are declared besides types and directives. -/
theorem of_declareRoots
    {location : SourceLocation}
    {block : SchemaBlock}
    (h : pass.declareRoots location block = .ok next) :
    next.stage = pass.stage ∧
      next.directives = pass.directives := by
  unfold declareRoots at h
  split at h
  · cases h
  · simp only [Results.bind_eq_ok_iff] at h
    rcases h with
      ⟨_, -, _, -, roots, -, _, -, _, -, _, -, hNext⟩
    cases hNext
    exact ⟨rfl, rfl⟩

/- What a document does to types and to directives. -/
theorem of_load
    {document : TypeSystemDocument}
    (h : pass.load file document = .ok next) :
    document.foldlM (Draft.takeStage file) pass.stage =
        .ok next.stage ∧
      document.foldlM (takeDirective file) pass.directives =
        .ok next.directives := by
  unfold load at h
  induction document generalizing pass with
  | nil =>
      cases h
      exact ⟨rfl, rfl⟩
  | cons definition rest ih =>
      rw [List.foldlM_cons] at h
      rcases Results.bind_eq_ok_iff.1 h with
        ⟨middle, hMiddle, hRest⟩
      have hParts :
          Draft.takeStage file pass.stage definition =
              .ok middle.stage ∧
            takeDirective file pass.directives definition =
              .ok middle.directives := by
        cases definition with
        | schema block =>
            rcases of_declareRoots hMiddle with
              ⟨hStage, hDirectives⟩
            rw [hStage, hDirectives]
            exact ⟨rfl, rfl⟩
        | _ =>
            rcases (take_eq_ok_iff (by simp)).1 hMiddle with
              ⟨stage, directives, hStage, hDirectives, rfl⟩
            exact ⟨hStage, hDirectives⟩
      rcases ih hRest with ⟨hStage, hDirectives⟩
      rw [List.foldlM_cons, List.foldlM_cons, hParts.1, hParts.2]
      exact ⟨hStage, hDirectives⟩

/- A document without root types adds only such parts. -/
theorem load_eq_ok_iff
    {document : TypeSystemDocument}
    (hRoots : ∀ block, .schema block ∉ document) :
    pass.load file document = .ok next ↔
      ∃ stage directives,
        document.foldlM (Draft.takeStage file) pass.stage =
            .ok stage ∧
          document.foldlM (takeDirective file) pass.directives =
            .ok directives ∧
          next = pass.atStage stage directives := by
  unfold load
  induction document generalizing pass with
  | nil =>
      constructor
      · intro h
        cases h
        exact ⟨_, _, rfl, rfl, rfl⟩
      · intro hParts
        rcases hParts with ⟨_, _, hStage, hDirectives, rfl⟩
        cases hStage
        cases hDirectives
        rfl
  | cons definition rest ih =>
      have hFirst : ∀ block, definition ≠ .schema block := by
        rintro block rfl
        exact hRoots block List.mem_cons_self
      have hRest : ∀ block, .schema block ∉ rest :=
        fun block hMem =>
          hRoots block (List.mem_cons_of_mem _ hMem)
      simp only [List.foldlM_cons, Results.bind_eq_ok_iff,
        take_eq_ok_iff hFirst, ih hRest]
      constructor
      · intro hParts
        rcases hParts with
          ⟨_, ⟨stage, directives, hStage, hDirectives, rfl⟩,
           last, all, hLast, hAll, rfl⟩
        exact
          ⟨last, all, ⟨stage, hStage, hLast⟩,
            ⟨directives, hDirectives, hAll⟩, rfl⟩
      · intro hParts
        rcases hParts with
          ⟨last, all, ⟨stage, hStage, hLast⟩,
           ⟨directives, hDirectives, hAll⟩, rfl⟩
        exact
          ⟨_, ⟨stage, directives, hStage, hDirectives, rfl⟩,
            last, all, hLast, hAll, rfl⟩

------------------------------------------------------------
-- Graphs
------------------------------------------------------------

/- Register the type of an entry. -/
def registerEntry (graph : TypeGraph) (entry : DraftEntry) :
    Except BuildError TypeGraph :=
  graph.register (.defined entry.type)

/- Register the type of an entry as it is finished. -/
def registerFinished
    (decorator? : Option Decorator)
    (graph : TypeGraph)
    (entry : DraftEntry) : Except BuildError TypeGraph := do
  let type ← finished decorator? entry
  graph.register (.defined type)

/- The types of a draft are finished and registered in turn. -/
theorem materialize_eq
    (decorator? : Option Decorator)
    (graph : TypeGraph)
    (draft : Draft) :
    (materialize decorator? graph draft).2 =
      draft.foldlM (registerFinished decorator?) graph := by
  induction draft generalizing graph with
  | nil => rfl
  | cons entry rest ih =>
      rw [materialize, List.foldlM_cons]
      have hEntry : (do
            let type ← finished decorator? entry
            graph.register (.defined type)) =
          registerFinished decorator? graph entry := rfl
      simp only [hEntry]
      cases hNext : registerFinished decorator? graph entry with
      | error error => rfl
      | ok next => exact ih next

/- What a pass is built to. -/
theorem build_decorated_eq_ok_iff
    {decorator? : Option Decorator}
    {schema : Schema} :
    pass.build decorator? = .ok schema ↔
      ∃ draft graph,
        Draft.settleKinds pass.stage = .ok draft ∧
          checkExpected decorator? draft = .ok () ∧
          draft.foldlM (registerFinished decorator?) .builtin =
            .ok graph ∧
          pass.assemble graph = .ok schema := by
  unfold build finish
  rw [Draft.settle_eq]
  cases hDraft : Draft.settleKinds pass.stage with
  | error error => simp
  | ok draft =>
      have hGraph := materialize_eq decorator? .builtin draft
      cases hExpected : checkExpected decorator? draft with
      | error error => simp [hExpected]
      | ok done =>
          simp only [hExpected]
          split
          · next handed error hError =>
              rw [hError] at hGraph
              simp [← hGraph]
          · next handed graph hOk =>
              rw [hOk] at hGraph
              simp [← hGraph, hExpected]

/- Without a decorator the types are registered as they are. -/
theorem build_eq_ok_iff {schema : Schema} :
    pass.build none = .ok schema ↔
      ∃ draft graph,
        Draft.settleKinds pass.stage = .ok draft ∧
          draft.foldlM registerEntry .builtin = .ok graph ∧
          pass.assemble graph = .ok schema := by
  have hExpected : ∀ draft,
      checkExpected none draft = .ok () := fun _ => rfl
  have hRegister : registerFinished none = registerEntry := rfl
  simp only [build_decorated_eq_ok_iff, hExpected, hRegister,
    true_and]

end Pass

namespace TypeGraph

variable {graph next : TypeGraph}

/- A type is registered under a name that is free. -/
theorem register_eq_ok_iff {type : NamedType} :
    graph.register type = .ok next ↔
      Name.isValid type.name = true ∧
        Name.isReserved type.name = false ∧
        ∃ hFree : graph.lookup type.name = none,
          next = graph.add type hFree := by
  unfold register
  constructor
  · intro h
    split at h
    · cases h
    · next hValid =>
        split at h
        · cases h
        · next hReserved =>
            split at h
            · cases h
            · next hFree =>
                cases h
                exact
                  ⟨by simpa using hValid,
                    by simpa using hReserved, hFree, rfl⟩
  · intro hParts
    rcases hParts with ⟨hValid, hReserved, hFree, rfl⟩
    rw [if_neg (by simp [hValid]), if_neg (by simp [hReserved])]
    split
    · next other hOther =>
        rw [hFree] at hOther
        cases hOther
    · rfl

/- Types that are alike are registered alike. -/
theorem same_register
    {graph graph' : TypeGraph}
    {type type' : NamedType}
    (h : graph.Alike graph')
    (hType : type.Alike type') :
    Results.Same TypeGraph.Alike (graph.register type)
      (graph'.register type') := by
  refine .of_symmetric
    (fun data data' : TypeGraph × NamedType =>
      data.1.Alike data'.1 ∧ data.2.Alike data'.2)
    (fun data => data.1.register data.2)
    alike_equivalence ?_ ?_ (c := (graph, type))
    (d := (graph', type')) ⟨h, hType⟩
  · intro data data' hData
    exact
      ⟨alike_equivalence.symm hData.1,
        NamedType.alike_equivalence.symm hData.2⟩
  · rintro ⟨graph, type⟩ ⟨graph', type'⟩ next
      ⟨hGraph, hType⟩ hNext
    rcases register_eq_ok_iff.1 hNext with
      ⟨hValid, hReserved, hFree, rfl⟩
    rw [hType.name_eq] at hValid hReserved
    have hFree' : graph'.lookup type'.name = none := by
      rw [← hGraph.matches.lookup_eq_none_iff, ← hType.name_eq]
      exact hFree
    refine
      ⟨_, register_eq_ok_iff.2
        ⟨hValid, hReserved, hFree', rfl⟩, ?_⟩
    exact List.rel_append hGraph (.cons hType .nil)

/- Drafts that are alike are registered alike. -/
theorem same_registerAll
    {draft draft' : Draft}
    (h : draft.Alike draft') :
    Results.Same TypeGraph.Alike
      (draft.foldlM Pass.registerEntry .builtin)
      (draft'.foldlM Pass.registerEntry .builtin) := by
  refine Results.same_foldlM_of_forall₂ ?_ h
    (alike_equivalence.refl _)
  intro graph graph' entry entry' hGraph hEntry
  exact same_register hGraph (.defined hEntry)

/- The types of a draft follow those of a graph. -/
theorem types_of_registerAll
    {draft : Draft}
    (h : draft.foldlM Pass.registerEntry graph = .ok next) :
    next.types = graph.types ++
      draft.map fun entry => .defined entry.type := by
  induction draft generalizing graph with
  | nil =>
      cases h
      simp
  | cons entry rest ih =>
      rw [List.foldlM_cons] at h
      rcases Results.bind_eq_ok_iff.1 h with
        ⟨middle, hMiddle, hRest⟩
      rcases register_eq_ok_iff.1 hMiddle with
        ⟨-, -, hFree, rfl⟩
      rw [ih hRest]
      simp [add]

/- The types that a graph was given are carried over. -/
theorem ofGraph_alike
    {draft : Draft}
    (h : draft.foldlM Pass.registerEntry .builtin = .ok next) :
    (Draft.ofGraph next).Alike draft := by
  have hTypes : Draft.ofGraph next =
      draft.map fun entry => ⟨entry.type, false⟩ := by
    unfold Draft.ofGraph
    rw [types_of_registerAll h, List.filterMap_append,
      List.filterMap_map]
    simp [builtin, BuiltinScalar.all]
  unfold Draft.Alike
  rw [hTypes, List.forall₂_map_left_iff]
  exact List.forall₂_same.2 fun entry _ => .refl entry.type

end TypeGraph

end GraphQL
