import GraphQL.Proofs.Schema.ByName

/-
  The order of definitions: documents with the same definitions
  build schemas that are the same name by name, or none of them
  builds a schema.

  Key definitions include:
    * `Roots.fill`, `Roots.Apart`, `Roots.Distinct`
    * `Pass.takeRoots`
    * `Schema.AgreesByName`

  Main declarations:
    * `Pass.declareRoots_eq_ok_iff`
    * `Pass.load_parts_eq_ok_iff`
    * `Schema.same_ofDocuments_of_perm`
-/

------------------------------------------------------------
-- Roots
------------------------------------------------------------

namespace GraphQL

namespace Roots

variable {roots first second third : Roots}

/- Add roots for kinds of operations that have none. -/
def fill (roots more : Roots) : Roots where
  query := roots.query.or more.query
  mutation := roots.mutation.or more.mutation
  subscription := roots.subscription.or more.subscription

/- The root of one kind of operation, if there is one. -/
def only (ref? : Option RootReference) : OperationKind → Roots
| .query => ⟨ref?, none, none⟩
| .mutation => ⟨none, ref?, none⟩
| .subscription => ⟨none, none, ref?⟩

@[simp]
theorem get?_fill
    (roots more : Roots)
    (operation : OperationKind) :
    (roots.fill more).get? operation =
      (roots.get? operation).or (more.get? operation) := by
  cases operation <;> rfl

@[simp]
theorem get?_only
    (ref? : Option RootReference)
    (operation other : OperationKind) :
    (only ref? operation).get? other =
      if operation = other then ref? else none := by
  cases operation <;> cases other <;> rfl

/- Roots are known by the kinds of operations. -/
theorem ext_get?
    (h : ∀ operation,
      first.get? operation = second.get? operation) :
    first = second := by
  rcases first with ⟨query, mutation, subscription⟩
  rcases second with ⟨query', mutation', subscription'⟩
  have hQuery : query = query' := h .query
  have hMutation : mutation = mutation' := h .mutation
  have hSubscription : subscription = subscription' :=
    h .subscription
  rw [hQuery, hMutation, hSubscription]

/- No kind of operation has a root in both. -/
def Apart (first second : Roots) : Prop :=
  ∀ operation,
    first.get? operation = none ∨ second.get? operation = none

theorem Apart.symm (h : first.Apart second) :
    second.Apart first :=
  fun operation => (h operation).symm

theorem fill_apart_iff :
    (first.fill second).Apart third ↔
      first.Apart third ∧ second.Apart third := by
  simp only [Apart, get?_fill, Option.or_eq_none_iff, and_or_right,
    forall_and]

theorem apart_fill_iff :
    first.Apart (second.fill third) ↔
      first.Apart second ∧ first.Apart third := by
  simp only [Apart, get?_fill, Option.or_eq_none_iff, or_and_left,
    forall_and]

/- Roots of different kinds of operations are apart. -/
theorem only_apart
    {ref? ref?' : Option RootReference}
    {operation operation' : OperationKind}
    (h : operation ≠ operation') :
    (only ref? operation).Apart (only ref?' operation') := by
  intro other
  by_cases hOther : operation = other
  · have hNe : operation' ≠ other := fun hSame =>
      h (hOther.trans hSame.symm)
    simp [hNe]
  · simp [hOther]

theorem fill_assoc (first second third : Roots) :
    (first.fill second).fill third =
      first.fill (second.fill third) := by
  apply ext_get?
  simp [Option.or_assoc]

/- Roots that are apart may be added in either order. -/
theorem fill_right_comm
    (roots : Roots)
    (h : first.Apart second) :
    (roots.fill first).fill second =
      (roots.fill second).fill first := by
  apply ext_get?
  intro operation
  rcases h operation with hNone | hNone <;> simp [hNone]

/- Two kinds of operations do not share a root type. -/
def DistinctFor
    (roots : Roots)
    (operation operation' : OperationKind) : Prop :=
  ∀ ref ref', roots.get? operation = some ref →
    roots.get? operation' = some ref' → ref.type ≠ ref'.type

/- No two kinds of operations share a root type. -/
structure Distinct (roots : Roots) : Prop where
  queryMutation : roots.DistinctFor .query .mutation
  querySubscription : roots.DistinctFor .query .subscription
  mutationSubscription :
    roots.DistinctFor .mutation .subscription

/- Fewer roots are distinct as well. -/
theorem Distinct.of_fill
    (h : (first.fill second).Distinct) : first.Distinct := by
  have hKept : ∀ operation ref,
      first.get? operation = some ref →
      (first.fill second).get? operation = some ref := by
    intro operation ref hRef
    simp [hRef]
  have hFor : ∀ {operation operation'},
      (first.fill second).DistinctFor operation operation' →
      first.DistinctFor operation operation' :=
    fun hDistinct ref ref' hRef hRef' =>
      hDistinct ref ref' (hKept _ _ hRef) (hKept _ _ hRef')
  exact
    ⟨hFor h.queryMutation, hFor h.querySubscription,
      hFor h.mutationSubscription⟩

end Roots

/- The roots that a schema block names. -/
def SchemaBlock.roots
    (block : SchemaBlock)
    (location : SourceLocation) : Roots :=
  let ref (type : String) : RootReference := ⟨type, location⟩
  ((Roots.only (block.query.map ref) .query).fill
    (.only (block.mutation.map ref) .mutation)).fill
      (.only (block.subscription.map ref) .subscription)

namespace Pass

variable {pass next : Pass} {file : Option String}

/- A root is declared once for each kind of operation. -/
theorem declareRoot_eq_ok_iff
    {location : SourceLocation}
    {roots roots' : Roots}
    {operation : OperationKind}
    {type? : Option String} :
    declareRoot location roots operation type? = .ok roots' ↔
      roots.Apart
          (.only (type?.map fun type => ⟨type, location⟩)
            operation) ∧
        roots' = roots.fill
          (.only (type?.map fun type => ⟨type, location⟩)
            operation) := by
  unfold declareRoot
  cases type? with
  | none =>
      have hFill : roots.fill (.only none operation) = roots := by
        apply Roots.ext_get?
        simp
      simp only [Option.map_none, hFill]
      constructor
      · rintro ⟨⟩
        exact ⟨fun other => .inr (by simp), rfl⟩
      · rintro ⟨-, rfl⟩
        rfl
  | some type =>
      simp only [Option.map_some]
      cases hFirst : roots.get? operation with
      | some first =>
          constructor
          · rintro ⟨⟩
          · rintro ⟨hApart, -⟩
            have hNone := hApart operation
            simp [hFirst] at hNone
      | none =>
          have hSet : roots.set ⟨type, location⟩ operation =
              roots.fill (.only (some ⟨type, location⟩)
                operation) := by
            cases operation <;>
              simp_all [Roots.set, Roots.fill, Roots.only,
                Roots.get?]
          simp only [hSet]
          constructor
          · rintro ⟨⟩
            refine ⟨fun other => ?_, rfl⟩
            by_cases hOther : operation = other
            · exact .inl (hOther ▸ hFirst)
            · exact .inr (by simp [hOther])
          · rintro ⟨-, rfl⟩
            rfl

theorem checkDistinct_eq_ok_iff
    {roots : Roots}
    {operation operation' : OperationKind}
    {done : Unit} :
    checkDistinct roots operation operation' = .ok done ↔
      roots.DistinctFor operation operation' := by
  unfold checkDistinct Roots.DistinctFor
  cases roots.get? operation with
  | none => simp
  | some ref =>
      cases roots.get? operation' with
      | none => simp
      | some ref' =>
          by_cases hSame : ref.type = ref'.type <;> simp [hSame]

/-
  A schema block adds roots for kinds of operations that have
  none, such that no two kinds share a root.
-/
theorem declareRoots_eq_ok_iff
    (hExtending : pass.extending = false)
    {location : SourceLocation}
    {block : SchemaBlock} :
    pass.declareRoots location block = .ok next ↔
      pass.roots.Apart (block.roots location) ∧
        (pass.roots.fill (block.roots location)).Distinct ∧
        next = { pass with
          roots := pass.roots.fill (block.roots location) } := by
  unfold declareRoots SchemaBlock.roots
  rw [if_neg (by simp [hExtending])]
  simp only [Results.bind_eq_ok_iff, declareRoot_eq_ok_iff,
    checkDistinct_eq_ok_iff, Roots.apart_fill_iff]
  constructor
  · intro hParts
    rcases hParts with
      ⟨_, ⟨hQuery, rfl⟩, _, ⟨hMutation, rfl⟩, _,
       ⟨hSubscription, rfl⟩, _, hFirst, _, hSecond, _, hThird,
       hNext⟩
    cases hNext
    rw [Roots.fill_apart_iff] at hMutation
    rw [Roots.fill_apart_iff, Roots.fill_apart_iff]
      at hSubscription
    simp only [Roots.fill_assoc] at hFirst hSecond hThird ⊢
    exact
      ⟨⟨⟨hQuery, hMutation.1⟩, hSubscription.1.1⟩,
        ⟨hFirst, hSecond, hThird⟩, trivial⟩
  · intro hParts
    rcases hParts with
      ⟨⟨⟨hQuery, hMutation⟩, hSubscription⟩,
       ⟨hFirst, hSecond, hThird⟩, rfl⟩
    simp only [← Roots.fill_assoc] at hFirst hSecond hThird ⊢
    refine
      ⟨_, ⟨hQuery, rfl⟩, _, ⟨?_, rfl⟩, _, ⟨?_, rfl⟩, (), hFirst,
        (), hSecond, (), hThird, rfl⟩
    · rw [Roots.fill_apart_iff]
      exact ⟨hMutation, Roots.only_apart (by simp)⟩
    · rw [Roots.fill_apart_iff, Roots.fill_apart_iff]
      exact
        ⟨⟨hSubscription, Roots.only_apart (by simp)⟩,
          Roots.only_apart (by simp)⟩

/- Take the roots that a definition names. -/
def takeRoots (file : Option String) (roots : Roots) :
    TypeSystemDefinition → Except BuildError Roots
| .schema block => do
    let start := { Pass.empty with roots := roots }
    let pass ←
      start.declareRoots (.ofSchema file block.position) block
    return pass.roots
| _ => return roots

theorem takeRoots_schema_eq_ok_iff
    {roots roots' : Roots}
    {block : SchemaBlock} :
    takeRoots file roots (.schema block) = .ok roots' ↔
      let more := block.roots (.ofSchema file block.position)
      roots.Apart more ∧ (roots.fill more).Distinct ∧
        roots' = roots.fill more := by
  unfold takeRoots
  simp only [Results.bind_eq_ok_iff]
  constructor
  · intro hParts
    rcases hParts with ⟨pass, hPass, hRoots⟩
    rcases (declareRoots_eq_ok_iff rfl).1 hPass with
      ⟨hApart, hDistinct, rfl⟩
    cases hRoots
    exact ⟨hApart, hDistinct, rfl⟩
  · intro hParts
    rcases hParts with ⟨hApart, hDistinct, rfl⟩
    exact
      ⟨_, (declareRoots_eq_ok_iff rfl).2 ⟨hApart, hDistinct, rfl⟩,
        rfl⟩

/- A schema block. -/
def block? : TypeSystemDefinition → Option SchemaBlock
| .schema block => some block
| _ => none

/- Roots may be taken in any order. -/
theorem same_takeRoots_of_perm
    {document document' : TypeSystemDocument}
    (hPerm : document.Perm document')
    (roots : Roots) :
    Results.Same Eq (document.foldlM (takeRoots file) roots)
      (document'.foldlM (takeRoots file) roots) := by
  have hPicked : ∀ definition block,
      block? definition = some block →
      definition = .schema block := by
    intro definition block hBlock
    cases definition <;> cases hBlock
    rfl
  refine Results.same_foldlM_picked_of_perm hPicked ?_
    eq_equivalence ?_ ?_ hPerm rfl
  · intro roots definition hOther
    cases definition with
    | schema block => cases hOther
    | _ => rfl
  · rintro roots _ block rfl
    exact .refl (fun _ => rfl) _
  · intro roots first second
    apply Results.Same.of_symmetric
      (fun pair pair' => pair' = pair.swap)
      (fun pair : SchemaBlock × SchemaBlock =>
        takeRoots file roots (.schema pair.1) >>= fun roots =>
          takeRoots file roots (.schema pair.2))
      eq_equivalence (c := (first, second)) (d := (second, first))
    · rintro pair _ rfl
      exact pair.swap_swap.symm
    · rintro pair _ last rfl hLast
      simp only [Results.bind_eq_ok_iff,
        takeRoots_schema_eq_ok_iff] at hLast ⊢
      rcases hLast with
        ⟨_, ⟨hFirst, hDistinct, rfl⟩, hSecond, hAll, rfl⟩
      rw [Roots.fill_apart_iff] at hSecond
      rw [Roots.fill_right_comm roots hSecond.2] at hAll ⊢
      refine
        ⟨_, ⟨_, ⟨hSecond.1, hAll.of_fill, rfl⟩, ?_, hAll, rfl⟩,
          rfl⟩
      rw [Roots.fill_apart_iff]
      exact ⟨hFirst, hSecond.2.symm⟩
    · rfl

------------------------------------------------------------
-- Directives
------------------------------------------------------------

/- The same names are free, however directives are listed. -/
theorem Admits.of_perm
    {known known' : List Directive}
    {name : String}
    (h : Admits known name)
    (hPerm : known.Perm known') : Admits known' name :=
  ⟨h.notBuiltin, h.notReserved, fun directive hDirective =>
    h.isNew directive (hPerm.mem_iff.2 hDirective)⟩

/- A directive definition. -/
def directive? :
    TypeSystemDefinition → Option DirectiveDefinition
| .directive definition => some definition
| _ => none

/- Directives may be taken in any order. -/
theorem same_takeDirectives_of_perm
    {document document' : TypeSystemDocument}
    (hPerm : document.Perm document')
    (known : List Directive) :
    Results.Same List.Perm
      (document.foldlM (takeDirective file) known)
      (document'.foldlM (takeDirective file) known) := by
  have hLike := (List.isSetoid Directive).iseqv
  have hPicked : ∀ definition directive,
      directive? definition = some directive →
      definition = .directive directive := by
    intro definition directive hDirective
    cases definition <;> cases hDirective
    rfl
  refine Results.same_foldlM_picked_of_perm hPicked ?_ hLike ?_
    ?_ hPerm (.refl known)
  · intro known definition hOther
    cases definition with
    | directive definition => cases hOther
    | _ => rfl
  · intro known known' definition hKnown
    refine .of_symmetric List.Perm
      (fun known => takeDirective file known (.directive definition))
      hLike (fun _ _ h => h.symm) ?_ hKnown
    intro known known' all hPerm hAll
    rcases takeDirective_directive_eq_ok_iff.1 hAll with
      ⟨hAdmits, rfl⟩
    exact
      ⟨_, takeDirective_directive_eq_ok_iff.2
        ⟨hAdmits.of_perm hPerm, rfl⟩, hPerm.append_right _⟩
  · intro known first second
    apply Results.Same.of_symmetric
      (fun pair pair' => pair' = pair.swap)
      (fun pair : DirectiveDefinition × DirectiveDefinition =>
        takeDirective file known (.directive pair.1) >>=
          fun known =>
            takeDirective file known (.directive pair.2))
      hLike (c := (first, second)) (d := (second, first))
    · rintro pair _ rfl
      exact pair.swap_swap.symm
    · rintro pair _ last rfl hLast
      simp only [Results.bind_eq_ok_iff,
        takeDirective_directive_eq_ok_iff] at hLast ⊢
      rcases hLast with ⟨_, ⟨hFirst, rfl⟩, hSecond, rfl⟩
      have hNe : pair.1.name ≠ pair.2.name :=
        hSecond.isNew
          (.custom
            (customDirective (.ofSchema file pair.1.position)
              pair.1)) (by simp)
      refine
        ⟨_, ⟨_, ⟨⟨hSecond.notBuiltin, hSecond.notReserved,
          fun directive hDirective => ?_⟩, rfl⟩,
          ⟨hFirst.notBuiltin, hFirst.notReserved,
            fun directive hDirective => ?_⟩, rfl⟩,
          append_swap_perm _ _ _⟩
      · exact hSecond.isNew directive
          (List.mem_append_left _ hDirective)
      · rcases List.mem_append.1 hDirective with
          hKnown | hOther
        · exact hFirst.isNew directive hKnown
        · rw [List.mem_singleton.1 hOther]
          exact hNe.symm
    · rfl

/- Directives that are taken have distinct names. -/
theorem nodup_names_of_takeDirectives
    {document : TypeSystemDocument}
    {known : List Directive}
    (h : document.foldlM (takeDirective file) [] = .ok known) :
    (known.map Directive.name).Nodup := by
  have hStep : ∀ known definition next,
      takeDirective file known definition = .ok next →
      (known.map Directive.name).Nodup →
      (next.map Directive.name).Nodup := by
    intro known definition next hNext hKnown
    cases definition with
    | directive definition =>
        rcases takeDirective_directive_eq_ok_iff.1 hNext with
          ⟨hAdmits, rfl⟩
        exact nodup_map_append hKnown hAdmits.isNew
    | _ =>
        cases hNext
        exact hKnown
  exact Results.foldlM_keeps hStep h List.nodup_nil

/- With the built-in ones their names are distinct, too. -/
theorem nodup_names_allDirectives
    {pass : Pass}
    (hNames : (pass.directives.map Directive.name).Nodup)
    (hNotBuiltin : NotBuiltin pass.directives) :
    (pass.allDirectives.map Directive.name).Nodup := by
  rw [allDirectives_of_declared hNotBuiltin, List.map_append,
    List.nodup_append]
  refine ⟨hNames, by decide, ?_⟩
  intro name hName other hOther hSame
  rcases List.mem_map.1 hName with ⟨directive, hDirective, rfl⟩
  rw [List.map_map] at hOther
  rcases List.mem_map.1 hOther with ⟨builtin, hBuiltin, rfl⟩
  exact hNotBuiltin directive hDirective builtin hBuiltin
    hSame.symm

------------------------------------------------------------
-- Documents
------------------------------------------------------------

/- A pass with other types, directives and roots. -/
def withParts
    (pass : Pass)
    (stage : Draft.Stage)
    (directives : List Directive)
    (roots : Roots) : Pass :=
  { pass.atStage stage directives with roots := roots }

/- A definition adds to types, directives and roots apart. -/
theorem take_parts_eq_ok_iff
    (hExtending : pass.extending = false)
    {definition : TypeSystemDefinition} :
    take file pass definition = .ok next ↔
      ∃ stage directives roots,
        Draft.takeStage file pass.stage definition =
            .ok stage ∧
          takeDirective file pass.directives definition =
            .ok directives ∧
          takeRoots file pass.roots definition = .ok roots ∧
          next = pass.withParts stage directives roots := by
  cases definition with
  | schema block =>
      have hTake :
          take file pass (.schema block) =
            pass.declareRoots (.ofSchema file block.position)
              block := rfl
      rw [hTake, declareRoots_eq_ok_iff hExtending]
      simp only [takeRoots_schema_eq_ok_iff]
      constructor
      · intro hParts
        rcases hParts with ⟨hApart, hDistinct, rfl⟩
        exact
          ⟨pass.stage, pass.directives, _, rfl, rfl,
            ⟨hApart, hDistinct, rfl⟩, rfl⟩
      · intro hParts
        rcases hParts with
          ⟨_, _, _, hStage, hDirectives,
           ⟨hApart, hDistinct, rfl⟩, rfl⟩
        cases hStage
        cases hDirectives
        exact ⟨hApart, hDistinct, rfl⟩
  | _ =>
      rw [take_eq_ok_iff (by simp)]
      constructor
      · intro hParts
        rcases hParts with
          ⟨stage, directives, hStage, hDirectives, rfl⟩
        exact
          ⟨stage, directives, pass.roots, hStage, hDirectives,
            rfl, rfl⟩
      · intro hParts
        rcases hParts with
          ⟨stage, directives, _, hStage, hDirectives, hRoots,
           rfl⟩
        cases hRoots
        exact ⟨stage, directives, hStage, hDirectives, rfl⟩

theorem load_parts_eq_ok_iff
    (hExtending : pass.extending = false)
    {document : TypeSystemDocument} :
    pass.load file document = .ok next ↔
      ∃ stage directives roots,
        document.foldlM (Draft.takeStage file) pass.stage =
            .ok stage ∧
          document.foldlM (takeDirective file) pass.directives =
            .ok directives ∧
          document.foldlM (takeRoots file) pass.roots =
            .ok roots ∧
          next = pass.withParts stage directives roots := by
  unfold load
  induction document generalizing pass with
  | nil =>
      constructor
      · rintro ⟨⟩
        exact ⟨_, _, _, rfl, rfl, rfl, rfl⟩
      · intro hParts
        rcases hParts with
          ⟨_, _, _, hStage, hDirectives, hRoots, rfl⟩
        cases hStage
        cases hDirectives
        cases hRoots
        rfl
  | cons definition rest ih =>
      simp only [List.foldlM_cons, Results.bind_eq_ok_iff,
        take_parts_eq_ok_iff hExtending]
      constructor
      · intro hParts
        rcases hParts with
          ⟨_, ⟨stage, directives, roots, hStage, hDirectives,
           hRoots, rfl⟩, hRest⟩
        rcases (ih (by exact hExtending)).1 hRest with
          ⟨last, all, more, hLast, hAll, hMore, rfl⟩
        exact
          ⟨last, all, more, ⟨stage, hStage, hLast⟩,
            ⟨directives, hDirectives, hAll⟩,
            ⟨roots, hRoots, hMore⟩, rfl⟩
      · intro hParts
        rcases hParts with
          ⟨last, all, more, ⟨stage, hStage, hLast⟩,
           ⟨directives, hDirectives, hAll⟩,
           ⟨roots, hRoots, hMore⟩, rfl⟩
        exact
          ⟨_, ⟨stage, directives, roots, hStage, hDirectives,
            hRoots, rfl⟩,
            (ih (by exact hExtending)).2
              ⟨last, all, more, hLast, hAll, hMore, rfl⟩⟩

/- Documents are taken like all their definitions in a row. -/
theorem loadAll_eq_load_flatten
    (documents : List TypeSystemDocument)
    (pass : Pass) :
    documents.foldlM
        (fun pass document => Pass.load pass file document)
        pass =
      pass.load file documents.flatten := by
  unfold load
  induction documents generalizing pass with
  | nil => rfl
  | cons document rest ih =>
      rw [List.foldlM_cons, List.flatten_cons, List.foldlM_append]
      simp only [ih]

end Pass

------------------------------------------------------------
-- Schemas
------------------------------------------------------------

namespace Schema

/-
  Schemas with the same roots, and name by name the same types
  and directives, up to the order of the parts of a type.
-/
structure AgreesByName (first second : Schema) : Prop where
  roots_eq : first.roots = second.roots
  types : ∀ name,
    Option.Rel NamedType.Agrees (first.lookup name)
      (second.lookup name)
  directives : first.directives.Perm second.directives
  directive?_eq : ∀ name,
    first.directive? name = second.directive? name

/- The schema of definitions whose parts are taken apart. -/
def ofParts (document : TypeSystemDocument) :
    Except BuildError Schema := do
  let draft ←
    document.foldlM (Draft.takeStage none) ([], []) >>=
      Draft.settleKinds
  let directives ←
    document.foldlM (Pass.takeDirective none) []
  let roots ←
    document.foldlM (Pass.takeRoots none) Pass.empty.roots
  let graph ← draft.foldlM Pass.registerEntry .builtin
  (Pass.empty.withParts ([], []) directives roots).assemble graph

/- Types, directives and roots are taken independently. -/
theorem same_ofParts (documents : List TypeSystemDocument) :
    Results.Same Eq (ofDocuments documents)
      (ofParts documents.flatten) := by
  apply Results.Same.of_ok_iff
  intro schema
  unfold ofDocuments ofParts
  rw [Pass.loadAll_eq_load_flatten]
  have hFresh : Pass.empty.extending = false := rfl
  simp only [Results.bind_eq_ok_iff,
    Pass.load_parts_eq_ok_iff hFresh, Pass.build_eq_ok_iff]
  constructor
  · intro hParts
    rcases hParts with
      ⟨_, ⟨stage, directives, roots, hStage, hDirectives, hRoots,
       rfl⟩, draft, graph, hDraft, hGraph, hSchema⟩
    exact
      ⟨draft, ⟨stage, hStage, hDraft⟩, directives, hDirectives,
        roots, hRoots, graph, hGraph, hSchema⟩
  · intro hParts
    rcases hParts with
      ⟨draft, ⟨stage, hStage, hDraft⟩, directives, hDirectives,
       roots, hRoots, graph, hGraph, hSchema⟩
    exact
      ⟨_, ⟨stage, directives, roots, hStage, hDirectives, hRoots,
        rfl⟩, draft, graph, hDraft, hGraph, hSchema⟩

/- What is specified once agrees name by name. -/
theorem agrees_of_matches
    {graph graph' : TypeGraph}
    {document document' : TypeSystemDocument}
    {draft draft' : Draft}
    (h : graph.Matches graph')
    (hDraft : document.foldlM (Draft.takeStage none) ([], []) >>=
      Draft.settleKinds = .ok draft)
    (hDraft' : document'.foldlM (Draft.takeStage none) ([], []) >>=
      Draft.settleKinds = .ok draft')
    (hGraph : draft.foldlM Pass.registerEntry .builtin =
      .ok graph)
    (hGraph' : draft'.foldlM Pass.registerEntry .builtin =
      .ok graph')
    (hOnce : ∀ name,
      (document'.flatMap
        (TypeSystemDefinition.specifications name)).length ≤ 1)
    (name : String) :
    Option.Rel NamedType.Agrees (graph.lookup name)
      (graph'.lookup name) := by
  rcases Results.bind_eq_ok_iff.1 hDraft with
    ⟨stage, hStage, hSettled⟩
  rcases Results.bind_eq_ok_iff.1 hDraft' with
    ⟨stage', hStage', hSettled'⟩
  have hSpecified := Draft.specified_of_settleKinds hSettled
    (Draft.specified_of_takeStages hStage Draft.specified_nil)
  have hSpecified' := Draft.specified_of_settleKinds hSettled'
    (Draft.specified_of_takeStages hStage' Draft.specified_nil)
  have hOnce' : ∀ name, draft'.specifications name ≤ 1 :=
    fun name => Nat.le_trans
      (Draft.specifications_le hStage' hSettled' name) (hOnce name)
  have hFound := h.lookup name
  cases hType' : graph'.lookup name with
  | none =>
      rw [(h.lookup_eq_none_iff name).2 hType']
      exact .none
  | some type' =>
      rw [hType'] at hFound
      rcases exists_of_rel_some hFound with
        ⟨type, hType, hAlike⟩
      rw [hType]
      exact .some
        (TypeGraph.agrees_of_mem hGraph hGraph' hSpecified
          hSpecified' hOnce' (TypeGraph.mem_of_lookup hType)
          (TypeGraph.mem_of_lookup hType') hAlike)

/-
  Documents with the same definitions, in whatever order and
  however they are divided, build schemas that agree name by
  name, or none of them builds a schema. No scalar is specified
  twice.
-/
theorem same_ofDocuments_of_perm
    {documents documents' : List TypeSystemDocument}
    (hPerm : documents.flatten.Perm documents'.flatten)
    (hOnce : ∀ name,
      (documents.flatten.flatMap
        (TypeSystemDefinition.specifications name)).length ≤ 1) :
    Results.Same AgreesByName (ofDocuments documents)
      (ofDocuments documents') := by
  have hOnce' : ∀ name,
      (documents'.flatten.flatMap
        (TypeSystemDefinition.specifications name)).length ≤ 1 :=
    fun name => (hPerm.flatMap_right _).length_eq ▸ hOnce name
  have hParts : Results.Same AgreesByName
      (ofParts documents.flatten)
      (ofParts documents'.flatten) := by
    apply (Draft.same_run_of_perm hPerm).bind
    intro draft draft' hDraft hDraft' hDrafts
    apply (Pass.same_takeDirectives_of_perm hPerm []).bind
    intro directives directives' hDirectives hDirectives' hSame
    apply (Pass.same_takeRoots_of_perm hPerm _).bind
    rintro roots _ - - rfl
    apply (TypeGraph.same_registerAll_of_matches hDrafts
      (Draft.distinct_of_run hDraft)
      (Draft.distinct_of_run hDraft')).bind
    intro graph graph' hGraph hGraph' hGraphs
    -- Directives are completed by the same built-in ones.
    let pass := Pass.empty.withParts ([], []) directives roots
    let pass' := Pass.empty.withParts ([], []) directives' roots
    have hAll : Pass.Completes pass.allDirectives directives :=
      Pass.completes_of_takeDirectives hDirectives
    have hAll' :
        Pass.Completes pass'.allDirectives directives' :=
      Pass.completes_of_takeDirectives hDirectives'
    have hComplete := (hAll.perm.trans
      (hSame.append_right _)).trans hAll'.perm.symm
    have hNames :
        (pass.allDirectives.map Directive.name).Nodup :=
      Pass.nodup_names_allDirectives
        (Pass.nodup_names_of_takeDirectives hDirectives)
        hAll.notBuiltin
    apply Pass.same_assemble hGraphs
    · exact fun operation =>
        Pass.same_settleRoot hGraphs operation _
    · intro schema schema' hTypes hTypes' hRoots hFirst hSecond
      refine ⟨hRoots, ?_, ?_, fun name => ?_⟩
      · unfold lookup
        rw [hTypes, hTypes']
        exact agrees_of_matches hGraphs hDraft hDraft' hGraph
          hGraph' hOnce'
      · rw [hFirst, hSecond]
        exact hComplete
      · unfold directive?
        rw [hFirst, hSecond]
        exact find?_eq_of_perm hNames hComplete name
  exact ((same_ofParts documents).eq_trans hParts).trans_eq
    ((same_ofParts documents').symm fun _ _ h => h.symm)

end Schema

------------------------------------------------------------
-- A Catalogue
------------------------------------------------------------

namespace Catalogue

/- The root of queries is named, and a directive defined. -/
def rooted : TypeSystemDocument :=
  [ .schema ⟨position, [], some "Query", none, none⟩,
    .directive
      ⟨position, none, "shelved", [], false, ["OBJECT"]⟩]

/- No scalar is specified twice in all the declarations. -/
theorem specifications_flatten_le_one (name : String) :
    ([document, supplement, rooted].flatten.flatMap
      (TypeSystemDefinition.specifications name)).length ≤
        1 := by
  have hNone : rooted.flatMap
      (TypeSystemDefinition.specifications name) = [] := rfl
  rw [List.flatten_cons, List.flatten_cons, List.flatten_cons,
    List.flatten_nil, List.append_nil, ← List.append_assoc,
    List.flatMap_append, hNone, List.append_nil]
  exact specifications_le_one name

/- The catalogue may be declared backwards. -/
theorem reversed_agrees :
    ∃ forwards backwards,
      Schema.ofDocuments [document, supplement, rooted] =
          .ok forwards ∧
        Schema.ofDocuments
            [rooted.reverse, supplement.reverse,
              document.reverse] =
          .ok backwards ∧
        forwards.AgreesByName backwards := by
  have hOk :
      (Schema.ofDocuments [document, supplement, rooted]).isOk =
        true := by
    with_unfolding_all rfl
  have hPerm :
      [document, supplement, rooted].flatten.Perm
        [rooted.reverse, supplement.reverse,
          document.reverse].flatten := by
    have hReversed := List.reverse_perm
      [document, supplement, rooted].flatten
    rw [List.reverse_flatten] at hReversed
    exact hReversed.symm
  have hSame := Schema.same_ofDocuments_of_perm hPerm
    specifications_flatten_le_one
  cases hForwards :
      Schema.ofDocuments [document, supplement, rooted] with
  | error error =>
      rw [hForwards] at hOk
      cases hOk
  | ok forwards =>
      rcases hSame.1 forwards hForwards with
        ⟨backwards, hBackwards, hAgrees⟩
      exact ⟨forwards, backwards, rfl, hBackwards, hAgrees⟩

end Catalogue

end GraphQL
