import Mathlib.Data.List.Nodup
import GraphQL.Proofs.Schema.Incremental

/-
  Drafts and graphs name by name.

  If no two types share a name, the order in which types are
  defined or registered only changes the order in which they
  are listed.

  Key definitions include:
    * `Draft.Distinct`, `Draft.Matches`
    * `TypeGraph.Registers`: names that are free in a graph

  Main declarations:
    * `Draft.same_run_of_perm`
    * `TypeGraph.same_registerAll_of_matches`
-/

------------------------------------------------------------
-- Distinct Names
------------------------------------------------------------

namespace GraphQL

section

variable {α : Type} {key : α → String} {items items' : List α}

/- What is found under a name is the item that bears it. -/
theorem find?_eq_some_iff_of_nodup
    (h : (items.map key).Nodup)
    {name : String}
    {item : α} :
    (items.find? fun item => key item == name) = some item ↔
      item ∈ items ∧ key item = name := by
  constructor
  · intro hFound
    have hName := List.find?_some hFound
    exact ⟨List.mem_of_find?_eq_some hFound, by simpa using hName⟩
  · intro hParts
    rcases hParts with ⟨hItem, hName⟩
    cases hFound : items.find? fun item => key item == name with
    | none =>
        rw [List.find?_eq_none] at hFound
        exact absurd (by simpa using hName) (hFound item hItem)
    | some other =>
        have hOther := List.mem_of_find?_eq_some hFound
        have hOtherName := List.find?_some hFound
        have hSame : key other = key item :=
          (by simpa using hOtherName : key other = name).trans
            hName.symm
        rw [List.inj_on_of_nodup_map h hOther hItem hSame]

/- It does not matter where an item stands. -/
theorem find?_eq_of_perm
    (h : (items.map key).Nodup)
    (hPerm : items.Perm items')
    (name : String) :
    (items.find? fun item => key item == name) =
      items'.find? fun item => key item == name := by
  have h' : (items'.map key).Nodup :=
    (hPerm.map key).nodup_iff.1 h
  apply Option.ext
  intro item
  rw [find?_eq_some_iff_of_nodup h, find?_eq_some_iff_of_nodup h',
    hPerm.mem_iff]

/- An item with a new name is added. -/
theorem nodup_map_append
    (h : (items.map key).Nodup)
    {item : α}
    (hNew : ∀ other ∈ items, key other ≠ key item) :
    ((items ++ [item]).map key).Nodup := by
  rw [List.map_append, List.nodup_append]
  refine ⟨h, by simp, ?_⟩
  intro name hName last hLast hSame
  rcases List.mem_map.1 hName with ⟨other, hOther, rfl⟩
  exact hNew other hOther (hSame.trans (by simpa using hLast))

end

------------------------------------------------------------
-- Drafts
------------------------------------------------------------

namespace Draft

variable {draft draft' next : Draft} {file : Option String}

/- No two types of a draft share a name. -/
def Distinct (draft : Draft) : Prop :=
  (draft.map fun entry => entry.type.name).Nodup

theorem distinct_nil : Distinct [] :=
  List.nodup_nil

theorem distinct_cons_iff (entry : DraftEntry) :
    Distinct (entry :: draft) ↔
      (∀ other ∈ draft, other.type.name ≠ entry.type.name) ∧
        draft.Distinct := by
  unfold Distinct
  rw [List.map_cons, List.nodup_cons, List.mem_map]
  simp

/- What is found under a name is the entry that bears it. -/
theorem Distinct.find?_eq_some_iff
    (h : draft.Distinct)
    {name : String}
    {entry : DraftEntry} :
    draft.find? name = some entry ↔
      entry ∈ draft ∧ entry.type.name = name :=
  find?_eq_some_iff_of_nodup h

/-
  The same types under the same names, in whatever order the
  drafts have them.
-/
structure Matches (draft draft' : Draft) : Prop where
  find? : ∀ name,
    Option.Rel
      (fun entry entry' => entry.type.Alike entry'.type)
      (draft.find? name) (draft'.find? name)

theorem matches_equivalence : Equivalence Draft.Matches :=
  have hRel := optionRel_equivalence
    (TypeDef.alike_equivalence.comap DraftEntry.type)
  { refl := fun _ => ⟨fun _ => hRel.refl _⟩
    symm := fun h => ⟨fun name => hRel.symm (h.find? name)⟩
    trans := fun h h' =>
      ⟨fun name => hRel.trans (h.find? name) (h'.find? name)⟩ }

theorem Alike.matches
    (h : draft.Alike draft') : draft.Matches draft' :=
  ⟨h.find?⟩

theorem Distinct.matches_of_perm
    (h : draft.Distinct)
    (hPerm : List.Perm draft draft') :
    draft.Matches draft' := by
  refine ⟨fun name => ?_⟩
  rw [show draft.find? name = draft'.find? name from
    find?_eq_of_perm h hPerm name]
  exact (matches_equivalence.refl draft').find? name

------------------------------------------------------------
-- Definitions
------------------------------------------------------------

/- A type is defined wherever the entries of a draft stand. -/
theorem same_define_of_perm
    {type : TypeDef}
    (h : List.Perm draft draft') :
    Results.Same List.Perm (draft.define type)
      (draft'.define type) := by
  refine .of_symmetric List.Perm
    (fun draft : Draft => draft.define type)
    (List.isSetoid DraftEntry).iseqv
    (fun _ _ hPerm => hPerm.symm) ?_ h
  intro draft draft' next hPerm hNext
  rcases define_eq_ok_iff.1 hNext with
    ⟨hReserved, hBuiltin, hFree, rfl⟩
  have hFree' : find? draft' type.name = none := by
    rw [find?_eq_none_iff] at hFree ⊢
    exact fun entry hEntry => hFree entry (hPerm.mem_iff.2 hEntry)
  exact
    ⟨_, define_eq_ok_iff.2 ⟨hReserved, hBuiltin, hFree', rfl⟩,
      hPerm.append_right _⟩

/- Two types may be defined in either order. -/
theorem define_comm
    {type type' : TypeDef}
    {last : Draft}
    (hNext : draft.define type = .ok next)
    (hLast : next.define type' = .ok last) :
    ∃ next' last',
      draft.define type' = .ok next' ∧
        next'.define type = .ok last' ∧
        List.Perm last last' := by
  rcases define_eq_ok_iff.1 hNext with
    ⟨hReserved, hBuiltin, hFree, rfl⟩
  rcases define_eq_ok_iff.1 hLast with
    ⟨hReserved', hBuiltin', hFree', rfl⟩
  rw [find?_append, Option.or_eq_none_iff] at hFree'
  have hNe : type.name ≠ type'.name := by
    intro hSame
    rw [if_pos hSame] at hFree'
    cases hFree'.2
  refine
    ⟨_, _, define_eq_ok_iff.2
      ⟨hReserved', hBuiltin', hFree'.1, rfl⟩,
      define_eq_ok_iff.2 ⟨hReserved, hBuiltin, ?_, rfl⟩,
      append_swap_perm _ _ _⟩
  rw [find?_append, hFree, if_neg hNe.symm]
  rfl

/- A definition of a type. -/
def definition? : TypeSystemDefinition → Option TypeDefinition
| .type definition => some definition
| _ => none

/- Types may be taken in any order. -/
theorem same_takeTypes_of_perm
    {document document' : TypeSystemDocument}
    (hPerm : document.Perm document')
    (draft : Draft) :
    Results.Same List.Perm (document.foldlM (takeType file) draft)
      (document'.foldlM (takeType file) draft) := by
  have hPicked : ∀ definition type,
      definition? definition = some type →
      definition = .type type := by
    intro definition type hType
    cases definition <;> cases hType
    rfl
  refine Results.same_foldlM_picked_of_perm hPicked ?_
    (List.isSetoid DraftEntry).iseqv ?_ ?_ hPerm (.refl draft)
  · intro draft definition hOther
    cases definition with
    | type definition => cases hOther
    | _ => rfl
  · intro draft draft' definition hDrafts
    apply Results.Same.bind_left
    intro type hType
    exact same_define_of_perm hDrafts
  · intro draft first second
    apply Results.Same.of_symmetric
      (fun pair pair' => pair' = pair.swap)
      (fun pair : TypeDefinition × TypeDefinition =>
        takeType file draft (.type pair.1) >>= fun draft =>
          takeType file draft (.type pair.2))
      (List.isSetoid DraftEntry).iseqv
      (c := (first, second)) (d := (second, first))
    · rintro pair _ rfl
      exact pair.swap_swap.symm
    · rintro pair _ last rfl hLast
      simp only [takeType, Results.bind_eq_ok_iff] at hLast ⊢
      rcases hLast with
        ⟨next, ⟨type, hType, hNext⟩, type', hType', hLast⟩
      rcases define_comm hNext hLast with
        ⟨next', last', hNext', hLast', hLasts⟩
      exact
        ⟨last', ⟨next', ⟨type', hType', hNext'⟩, type, hType,
          hLast'⟩, hLasts⟩
    · rfl

/- A type that is defined has a new name. -/
theorem distinct_of_define
    {type : TypeDef}
    (h : draft.define type = .ok next)
    (hDraft : draft.Distinct) : next.Distinct := by
  rcases define_eq_ok_iff.1 h with ⟨-, -, hFree, rfl⟩
  rw [find?_eq_none_iff] at hFree
  exact nodup_map_append hDraft hFree

theorem distinct_of_takeType
    {definition : TypeSystemDefinition}
    (h : takeType file draft definition = .ok next)
    (hDraft : draft.Distinct) : next.Distinct := by
  unfold takeType at h
  split at h
  · rcases Results.bind_eq_ok_iff.1 h with ⟨type, -, hNext⟩
    exact distinct_of_define hNext hDraft
  · cases h
    exact hDraft

theorem distinct_of_takeTypes
    {document : TypeSystemDocument}
    (h : document.foldlM (takeType file) [] = .ok next) :
    next.Distinct :=
  Results.foldlM_keeps
    (fun _ _ _ hNext hDraft => distinct_of_takeType hNext hDraft)
    h distinct_nil

------------------------------------------------------------
-- Extensions
------------------------------------------------------------

/- Types that are alike may take the place of a name. -/
theorem Matches.replace
    {name : String}
    {entry entry' : DraftEntry}
    {type type' : TypeDef}
    (h : draft.Matches draft')
    (hEntry : draft.find? name = some entry)
    (hEntry' : draft'.find? name = some entry')
    (hName : type.name = name)
    (hTypes : type.Alike type') :
    (draft.replace name type).Matches
      (draft'.replace name type') := by
  have hName' : type'.name = name := hTypes.name_eq ▸ hName
  refine ⟨fun other => ?_⟩
  by_cases hOther : other = name
  · rw [hOther, find?_replace_self hName hEntry,
      find?_replace_self hName' hEntry']
    exact .some hTypes
  · rw [find?_replace_of_ne hName hOther,
      find?_replace_of_ne hName' hOther]
    exact h.find? other

/- Drafts that match are extended to drafts that match. -/
theorem same_settleOne_of_matches
    (draft draft' : Draft)
    (waiting : SourceLocation × TypeExtension)
    (h : draft.Matches draft') :
    Results.Same Draft.Matches (Pass.settleOne draft waiting)
      (Pass.settleOne draft' waiting) := by
  refine .of_symmetric Draft.Matches
    (fun draft => Pass.settleOne draft waiting)
    matches_equivalence (fun _ _ => matches_equivalence.symm) ?_ h
  intro draft draft' next hMatches hNext
  have hApplies := settleOne_eq_ok_iff.1 hNext
  rcases hApplies.exists_alike (hMatches.find? waiting.2.name)
    with ⟨type, type', rfl, hNext', hName, hTypes⟩
  rcases hApplies.exists_type with ⟨entry, -, hEntry, -⟩
  rcases hNext'.exists_type with ⟨entry', -, hEntry', -⟩
  exact
    ⟨_, settleOne_eq_ok_iff.2 hNext',
      hMatches.replace hEntry hEntry' hName hTypes⟩

/- Extensions in any order extend drafts that match alike. -/
theorem same_settleAll_of_matches
    {waiting waiting' : List (SourceLocation × TypeExtension)}
    (hPerm : waiting.Perm waiting')
    (h : draft.Matches draft') :
    Results.Same Draft.Matches
      (waiting.foldlM Pass.settleOne draft)
      (waiting'.foldlM Pass.settleOne draft') := by
  have hOrder := same_settleAll_of_perm hPerm
    (alike_equivalence.refl draft)
  have hDrafts := Results.same_foldlM same_settleOne_of_matches
    waiting' h
  exact hOrder.trans hDrafts fun _ _ _ hAlike =>
    matches_equivalence.trans hAlike.matches

/- Extensions leave the names of a draft distinct. -/
theorem distinct_of_applies
    {waiting : SourceLocation × TypeExtension}
    (h : Applies waiting draft next)
    (hDraft : draft.Distinct) : next.Distinct := by
  unfold Distinct at hDraft ⊢
  rw [h.map_name_eq]
  exact hDraft

theorem distinct_of_takeStage
    {definition : TypeSystemDefinition}
    {stage stage' : Stage}
    (h : takeStage file stage definition = .ok stage')
    (hStage : stage.1.Distinct) : stage'.1.Distinct := by
  cases takeStage_eq_ok_iff.1 h with
  | type _ hDraft => exact distinct_of_define hDraft hStage
  | applied hApplies => exact distinct_of_applies hApplies hStage
  | waits | schema | directive => exact hStage

/- The types of a document have distinct names. -/
theorem distinct_of_run
    {document : TypeSystemDocument}
    (h : document.foldlM (takeStage file) ([], []) >>=
      settleKinds = .ok next) : next.Distinct := by
  rcases Results.bind_eq_ok_iff.1 h with ⟨stage, hStage, hNext⟩
  have hTaken : stage.1.Distinct :=
    Results.foldlM_keeps
      (fun _ _ _ hNext hDraft => distinct_of_takeStage hNext hDraft)
      hStage distinct_nil
  exact Results.foldlM_keeps
    (fun _ _ _ hNext hDraft =>
      distinct_of_applies (settleOne_eq_ok_iff.1 hNext) hDraft)
    hNext hTaken

/- Types and extensions may be taken in any order. -/
theorem same_run_of_perm
    {document document' : TypeSystemDocument}
    (hPerm : document.Perm document') :
    Results.Same Draft.Matches
      (document.foldlM (takeStage file) ([], []) >>= settleKinds)
      (document'.foldlM (takeStage file) ([], []) >>=
        settleKinds) := by
  have hTypesFirst := fun document : TypeSystemDocument =>
    @same_typesFirst file document ([], [])
  simp only [List.foldlM_nil, pure_bind] at hTypesFirst
  have hReordered : Results.Same Draft.Matches
      (document.foldlM (takeType file) [] >>= fun draft =>
        (document.filterMap (extension? file)).foldlM
          Pass.settleOne draft)
      (document'.foldlM (takeType file) [] >>= fun draft =>
        (document'.filterMap (extension? file)).foldlM
          Pass.settleOne draft) := by
    apply (same_takeTypes_of_perm hPerm []).bind
    intro draft draft' hDraft _ hDrafts
    exact same_settleAll_of_matches (hPerm.filterMap _)
      ((distinct_of_takeTypes hDraft).matches_of_perm hDrafts)
  have hFirst := (hTypesFirst document).trans hReordered
    fun _ _ _ hAlike => matches_equivalence.trans hAlike.matches
  refine hFirst.trans
    ((hTypesFirst document').symm fun _ _ => alike_equivalence.symm)
    fun _ _ _ hMatches hAlike =>
      matches_equivalence.trans hMatches hAlike.matches

end Draft

------------------------------------------------------------
-- Graphs
------------------------------------------------------------

namespace TypeGraph

variable {graph graph' next : TypeGraph} {draft draft' : Draft}

/- A name under which a type may be registered. -/
structure Registers (graph : TypeGraph) (name : String) :
    Prop where
  valid : Name.isValid name = true
  notReserved : Name.isReserved name = false
  free : graph.lookup name = none

/- The type that is added is found under its name. -/
theorem lookup_add
    (graph : TypeGraph)
    {type : NamedType}
    (hFree : graph.lookup type.name = none)
    (name : String) :
    (graph.add type hFree).lookup name =
      (graph.lookup name).or
        (if type.name = name then some type else none) := by
  by_cases hName : type.name = name <;>
    simp [lookup, add, List.find?_append, hName]

/- Types are registered if all their names are free. -/
theorem exists_registerAll_iff :
    (∃ next, draft.foldlM Pass.registerEntry graph = .ok next) ↔
      draft.Distinct ∧
        ∀ entry ∈ draft, graph.Registers entry.type.name := by
  induction draft generalizing graph with
  | nil =>
      refine ⟨fun _ => ⟨Draft.distinct_nil, by simp⟩, ?_⟩
      intro _
      exact ⟨graph, rfl⟩
  | cons entry rest ih =>
      simp only [List.foldlM_cons, Results.bind_eq_ok_iff]
      constructor
      · intro hExists
        rcases hExists with ⟨last, next, hNext, hLast⟩
        rcases register_eq_ok_iff.1 hNext with
          ⟨hValid, hReserved, hFree, rfl⟩
        rcases ih.1 ⟨last, hLast⟩ with ⟨hDistinct, hRest⟩
        have hFirst : graph.Registers entry.type.name :=
          ⟨hValid, hReserved, hFree⟩
        -- What is free later is free now, and not the first name.
        have hLater : ∀ other ∈ rest,
            graph.lookup other.type.name = none ∧
              (NamedType.defined entry.type).name ≠
                other.type.name := by
          intro other hOther
          have hNone := (hRest other hOther).free
          rw [lookup_add, Option.or_eq_none_iff] at hNone
          refine ⟨hNone.1, fun hSame => ?_⟩
          rw [if_pos hSame] at hNone
          cases hNone.2
        refine
          ⟨(Draft.distinct_cons_iff entry).2
            ⟨?_, hDistinct⟩, ?_⟩
        · intro other hOther hSame
          exact (hLater other hOther).2 hSame.symm
        · intro other hOther
          rcases List.mem_cons.1 hOther with rfl | hMem
          · exact hFirst
          · rcases hRest other hMem with
              ⟨hValid', hReserved', -⟩
            exact ⟨hValid', hReserved', (hLater other hMem).1⟩
      · intro hParts
        rcases hParts with ⟨hDistinct, hAll⟩
        rcases (Draft.distinct_cons_iff entry).1 hDistinct with
          ⟨hOthers, hRest⟩
        rcases hAll entry List.mem_cons_self with
          ⟨hValid, hReserved, hNone⟩
        have hFree : graph.lookup
            (NamedType.defined entry.type).name = none := hNone
        have hLater : ∀ other ∈ rest,
            (graph.add (.defined entry.type) hFree).Registers
              other.type.name := by
          intro other hOther
          rcases hAll other (List.mem_cons_of_mem entry hOther)
            with ⟨hValid', hReserved', hFree'⟩
          refine ⟨hValid', hReserved', ?_⟩
          have hNe : (NamedType.defined entry.type).name ≠
              other.type.name := (hOthers other hOther).symm
          rw [lookup_add, hFree', if_neg hNe]
          rfl
        rcases ih.2 ⟨hRest, hLater⟩ with ⟨last, hLast⟩
        exact
          ⟨last, _, register_eq_ok_iff.2
            ⟨hValid, hReserved, hFree, rfl⟩, hLast⟩

/- The types of a draft are added to those of a graph. -/
theorem lookup_registerAll
    (h : draft.foldlM Pass.registerEntry graph = .ok next)
    (name : String) :
    next.lookup name =
      (graph.lookup name).or
        ((draft.find? name).map fun entry =>
          .defined entry.type) := by
  unfold lookup
  rw [types_of_registerAll h, List.find?_append, List.find?_map]
  rfl

/-
  If drafts have related types under each name, then what is
  registered of one of them is registered of the other.
-/
theorem exists_registerAll_of_rel
    {Relate : NamedType → NamedType → Prop}
    (hRefl : ∀ type, Relate type type)
    (hFind : ∀ name, Option.Rel
      (fun entry entry' : DraftEntry =>
        Relate (.defined entry.type) (.defined entry'.type))
      (draft.find? name) (draft'.find? name))
    (hDistinct' : draft'.Distinct)
    (hGraph : draft.foldlM Pass.registerEntry .builtin =
      .ok graph) :
    ∃ graph', draft'.foldlM Pass.registerEntry .builtin =
        .ok graph' ∧
      ∀ name, Option.Rel Relate (graph.lookup name)
        (graph'.lookup name) := by
  rcases exists_registerAll_iff.1 ⟨graph, hGraph⟩ with
    ⟨-, hAll⟩
  have hAll' : ∀ entry' ∈ draft',
      TypeGraph.builtin.Registers entry'.type.name := by
    intro entry' hEntry'
    have hFound := hFind entry'.type.name
    rw [hDistinct'.find?_eq_some_iff.2 ⟨hEntry', rfl⟩] at hFound
    rcases exists_of_rel_some hFound with ⟨entry, hEntry, -⟩
    rw [← Draft.name_of_find? hEntry]
    exact hAll entry (List.mem_of_find?_eq_some hEntry)
  rcases exists_registerAll_iff.2 ⟨hDistinct', hAll'⟩ with
    ⟨graph', hGraph'⟩
  refine ⟨graph', hGraph', fun name => ?_⟩
  rw [lookup_registerAll hGraph, lookup_registerAll hGraph']
  have hFound := hFind name
  generalize draft.find? name = found at hFound ⊢
  generalize draft'.find? name = found' at hFound ⊢
  cases TypeGraph.builtin.lookup name with
  | some scalar => exact .some (hRefl scalar)
  | none =>
      cases hFound with
      | none => exact .none
      | some hTypes => exact .some hTypes

/- Drafts that match are registered to graphs that match. -/
theorem same_registerAll_of_matches
    (h : draft.Matches draft')
    (hDistinct : draft.Distinct)
    (hDistinct' : draft'.Distinct) :
    Results.Same TypeGraph.Matches
      (draft.foldlM Pass.registerEntry .builtin)
      (draft'.foldlM Pass.registerEntry .builtin) := by
  refine .of_symmetric
    (fun draft draft' : Draft =>
      draft.Matches draft' ∧ draft.Distinct ∧ draft'.Distinct)
    (fun draft => draft.foldlM Pass.registerEntry .builtin)
    matches_equivalence ?_ ?_ ⟨h, hDistinct, hDistinct'⟩
  · rintro draft draft' ⟨hMatches, hFirst, hSecond⟩
    exact
      ⟨Draft.matches_equivalence.symm hMatches, hSecond, hFirst⟩
  · rintro draft draft' graph ⟨hMatches, -, hSecond⟩ hGraph
    rcases exists_registerAll_of_rel
        NamedType.alike_equivalence.refl
        (fun name => optionRel_imp (fun _ _ => .defined)
          (hMatches.find? name))
        hSecond hGraph with
      ⟨graph', hGraph', hLookup⟩
    exact ⟨graph', hGraph', ⟨hLookup⟩⟩

end TypeGraph

end GraphQL
