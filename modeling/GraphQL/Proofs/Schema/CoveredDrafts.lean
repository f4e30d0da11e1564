import GraphQL.Proofs.Schema.DefinitionOrder
import GraphQL.Proofs.Schema.Undecorated

/-
  Drafts whose types cover each other.

  If the types of a draft have, one by one, all that validation
  asks of the types of another one, then whatever can be done
  with the first draft can be done with the second, and there is
  a schema of the second if there is one of the first.

  Key definitions include:
    * `Draft.Covers`, `Draft.Stage.Covers`, `Pass.Covers`

  Main declarations:
    * `TypeDef.Extends.exists_of_covers`
    * `Draft.Stage.Covers.exists_takeStages`
    * `Pass.Covers.exists_load`, `Pass.Covers.exists_build`
-/

------------------------------------------------------------
-- Parts Of Types
------------------------------------------------------------

namespace GraphQL

namespace Entries

variable {α : Type} {Cover : α → α → Prop}
variable {first second : Entries α}

theorem Covers.mem_names_iff
    (h : Covers Cover first second)
    (name : String) :
    name ∈ first.names ↔ name ∈ second.names := by
  rw [← contains_iff_mem_names, ← contains_iff_mem_names,
    h.contains_eq]

/- The same entries may be added. -/
theorem Covers.append
    (h : Covers Cover first second)
    (hRefl : ∀ value, Cover value value)
    (added : Entries α) :
    Covers Cover (first ++ added) (second ++ added) where
  exists_mem entry hEntry := by
    rcases List.mem_append.1 hEntry with hSecond | hAdded
    · rcases h.exists_mem entry hSecond with
        ⟨value, hValue, hCover⟩
      exact ⟨value, List.mem_append_left _ hValue, hCover⟩
    · exact
        ⟨entry.2, List.mem_append_right _ hAdded,
          hRefl entry.2⟩
  get? name := by
    have hFound := h.get? name
    rw [get?_append, get?_append]
    generalize first.get? name = value? at hFound ⊢
    generalize second.get? name = value?' at hFound ⊢
    cases hFound with
    | some hCover => exact .some hCover
    | none =>
        cases added.get? name with
        | none => exact .none
        | some value => exact .some (hRefl value)

end Entries

namespace FieldShape

variable {shape shape' : FieldShape}
variable {interfaces : List String}
variable {fields : Entries OutputField}

/- What one body admits, the body that it covers admits. -/
theorem Admits.of_covers
    (h : shape.Admits interfaces fields)
    (hCovers : shape.Covers shape') :
    shape'.Admits interfaces fields where
  interfaces :=
    h.interfaces.congr fun _ => hCovers.interfaces.mem_iff
  fields := h.fields.congr hCovers.fields.mem_names_iff

theorem Covers.add
    (h : shape.Covers shape')
    (interfaces : List String)
    (fields : Entries OutputField) :
    (shape.add interfaces fields).Covers
      (shape'.add interfaces fields) where
  fields := h.fields.append .refl fields
  interfaces := h.interfaces.append_right interfaces

end FieldShape

------------------------------------------------------------
-- Types
------------------------------------------------------------

namespace TypeDef

variable {location : SourceLocation}
variable {extension : TypeExtension} {type type' next : TypeDef}

theorem Covers.refl (type : TypeDef) : type.Covers type :=
  (alike_equivalence.refl type).covers

/- Names may be added to names that are there. -/
theorem nodup_append_of_iff
    {names names' added : List String}
    (hNames : ∀ name, name ∈ names ↔ name ∈ names')
    (hNodup : names.Nodup → names'.Nodup)
    (h : (names ++ added).Nodup) : (names' ++ added).Nodup := by
  rw [List.nodup_append] at h ⊢
  refine ⟨hNodup h.1, h.2.1, fun name hName => ?_⟩
  exact h.2.2 name ((hNames name).2 hName)

/-
  An extension of a type extends the type that it covers, and
  the results cover each other.
-/
theorem Extends.exists_of_covers
    (h : Extends location extension type next)
    (hCovers : type.Covers type') :
    ∃ next', Extends location extension type' next' ∧
      next.Covers next' := by
  cases h with
  | scalar hContent =>
      cases hCovers with
      | scalar hName =>
          exact ⟨_, .scalar hContent, .scalar hName⟩
  | object hContent hFields hAdmits =>
      cases hCovers with
      | object hName hShape =>
          exact
            ⟨_, .object hContent hFields
                (hAdmits.of_covers hShape),
              .object hName (hShape.add _ _)⟩
  | interface hContent hFields hSelf hAdmits =>
      cases hCovers with
      | interface hName hShape =>
          exact
            ⟨_, .interface hContent hFields hSelf
                (hAdmits.of_covers hShape),
              .interface hName (hShape.add _ _)⟩
  | union hContent hFresh =>
      cases hCovers with
      | union hName hListed =>
          exact
            ⟨_, .union hContent
                (hFresh.congr fun _ => hListed.mem_iff),
              .union hName (hListed.append_right _)⟩
  | enum hContent hFresh =>
      cases hCovers with
      | enum hName hValues hNodup =>
          refine
            ⟨_, .enum hContent (hFresh.congr hValues),
              .enum hName (fun name => ?_) fun hAll => ?_⟩
          · simp only [List.map_append, List.mem_append,
              hValues name]
          · rw [List.map_append] at hAll ⊢
            exact nodup_append_of_iff hValues hNodup hAll
  | inputObject hContent hFields hFresh =>
      cases hCovers with
      | inputObject hName hBody =>
          exact
            ⟨_, .inputObject hContent hFields
                (hFresh.congr hBody.mem_names_iff),
              .inputObject hName (hBody.append .refl _)⟩

end TypeDef

------------------------------------------------------------
-- Drafts
------------------------------------------------------------

namespace Draft

variable {draft draft' next : Draft} {file : Option String}

/- The types of one draft cover those of another in turn. -/
def Covers (draft draft' : Draft) : Prop :=
  List.Forall₂
    (fun entry entry' : DraftEntry =>
      entry.type.Covers entry'.type)
    draft draft'

theorem Covers.refl (draft : Draft) : draft.Covers draft :=
  List.forall₂_same.2 fun entry _ => .refl entry.type

/- What is found under a name covers what is found there. -/
theorem Covers.rel_find?
    (h : draft.Covers draft')
    (name : String) :
    Option.Rel
      (fun entry entry' => entry.type.Covers entry'.type)
      (draft.find? name) (draft'.find? name) :=
  rel_find?_of_forall₂ (fun _ _ hTypes => hTypes.name_eq) h name

theorem Covers.find?_eq_none_iff
    (h : draft.Covers draft')
    (name : String) :
    draft.find? name = none ↔ draft'.find? name = none :=
  eq_none_iff_of_rel (h.rel_find? name)

theorem Covers.names_eq (h : draft.Covers draft') :
    (draft.map fun entry => entry.type.name) =
      draft'.map fun entry => entry.type.name := by
  induction h with
  | nil => rfl
  | cons hEntry _ ih =>
      rw [List.map_cons, List.map_cons, hEntry.name_eq, ih]

/- A type may take the place of one that it covers. -/
theorem Covers.replace
    {name : String}
    {type type' : TypeDef}
    (h : draft.Covers draft')
    (hType : type.Covers type') :
    (draft.replace name type).Covers
      (draft'.replace name type') :=
  rel_replace_of_forall₂ (fun _ _ hTypes => hTypes.name_eq)
    h hType

/- A type is defined where one that covers it is. -/
theorem Covers.exists_define
    {type type' : TypeDef}
    (h : draft.Covers draft')
    (hType : type.Covers type')
    (hNext : draft.define type = .ok next) :
    ∃ next', draft'.define type' = .ok next' ∧
      next.Covers next' := by
  rcases define_eq_ok_iff.1 hNext with
    ⟨hReserved, hBuiltin, hFree, rfl⟩
  rw [h.find?_eq_none_iff] at hFree
  rw [hType.name_eq] at hReserved hBuiltin hFree
  exact
    ⟨_, define_eq_ok_iff.2 ⟨hReserved, hBuiltin, hFree, rfl⟩,
      List.rel_append h (.cons hType .nil)⟩

/- An extension is applied where it is applied to the other. -/
theorem Applies.exists_of_covers
    {waiting : SourceLocation × TypeExtension}
    (h : Applies waiting draft next)
    (hCovers : draft.Covers draft') :
    ∃ next', Applies waiting draft' next' ∧
      next.Covers next' := by
  rcases h with ⟨hBuiltin, entry, type, hEntry, hType, rfl⟩
  have hFound := hCovers.rel_find? waiting.2.name
  rw [hEntry] at hFound
  cases hEntry' : draft'.find? waiting.2.name with
  | none =>
      rw [hEntry'] at hFound
      cases hFound
  | some entry' =>
      rw [hEntry'] at hFound
      cases hFound with
      | some hTypes =>
          rcases hType.exists_of_covers hTypes with
            ⟨type', hType', hNext⟩
          exact
            ⟨_, ⟨hBuiltin, entry', type', hEntry', hType', rfl⟩,
              hCovers.replace hNext⟩

/- Drafts that cover each other, and the same that waits. -/
structure Stage.Covers (stage stage' : Stage) : Prop where
  draft : Draft.Covers stage.1 stage'.1
  waiting : stage.2 = stage'.2

namespace Stage.Covers

variable {stage stage' last : Stage}

/- Whatever the covering draft takes, the other one takes. -/
theorem exists_takeStage
    {definition : TypeSystemDefinition}
    (h : stage.Covers stage')
    (hNext : takeStage file stage definition = .ok last) :
    ∃ last', takeStage file stage' definition = .ok last' ∧
      last.Covers last' := by
  simp only [takeStage_eq_ok_iff]
  cases takeStage_eq_ok_iff.1 hNext with
  | type hType hDraft =>
      rcases h.draft.exists_define (.refl _) hDraft with
        ⟨draft', hDraft', hCovers⟩
      exact ⟨_, .type hType hDraft', hCovers, h.waiting⟩
  | applied hApplies =>
      rcases hApplies.exists_of_covers h.draft with
        ⟨draft', hApplies', hCovers⟩
      exact ⟨_, .applied hApplies', hCovers, h.waiting⟩
  | waits hBuiltin hUnknown =>
      rw [h.draft.find?_eq_none_iff] at hUnknown
      exact
        ⟨_, .waits hBuiltin hUnknown, h.draft, by rw [h.waiting]⟩
  | schema => exact ⟨_, .schema, h⟩
  | directive => exact ⟨_, .directive, h⟩

theorem exists_takeStages
    {document : TypeSystemDocument}
    (h : stage.Covers stage')
    (hNext : document.foldlM (takeStage file) stage =
      .ok last) :
    ∃ last', document.foldlM (takeStage file) stage' =
        .ok last' ∧
      last.Covers last' :=
  Results.exists_foldlM_of_related
    (fun _ _ _ _ _ hStages hStep =>
      hStages.exists_takeStage hStep)
    h hNext

/- What waits is settled in the other draft, too. -/
theorem exists_settleKinds
    (h : stage.Covers stage')
    (hNext : settleKinds stage = .ok next) :
    ∃ next', settleKinds stage' = .ok next' ∧
      next.Covers next' := by
  rcases stage with ⟨draft, waiting⟩
  rcases stage' with ⟨draft', _⟩
  cases h.waiting
  have hStep : ∀ draft draft' waiting next,
      Draft.Covers draft draft' →
      Pass.settleOne draft waiting = .ok next →
      ∃ next', Pass.settleOne draft' waiting = .ok next' ∧
        next.Covers next' := by
    intro draft draft' waiting next hDrafts hSettled
    rcases (settleOne_eq_ok_iff.1 hSettled).exists_of_covers
      hDrafts with ⟨next', hNext', hCovers⟩
    exact ⟨next', settleOne_eq_ok_iff.2 hNext', hCovers⟩
  exact Results.exists_foldlM_of_related
    (fun waiting _ draft draft' => hStep draft draft' waiting)
    h.draft hNext

end Stage.Covers

end Draft

------------------------------------------------------------
-- Schemas
------------------------------------------------------------

namespace TypeGraph

variable {draft draft' : Draft} {graph : TypeGraph}

/- The types of a draft are registered if the others are. -/
theorem exists_registerAll_of_covers
    (h : draft.Covers draft')
    (hGraph : draft.foldlM Pass.registerEntry .builtin =
      .ok graph) :
    ∃ graph', draft'.foldlM Pass.registerEntry .builtin =
        .ok graph' ∧
      graph.Covers graph' := by
  have hDistinct' : draft'.Distinct := by
    have hDistinct :=
      (exists_registerAll_iff.1 ⟨graph, hGraph⟩).1
    unfold Draft.Distinct at hDistinct ⊢
    rw [← h.names_eq]
    exact hDistinct
  rcases exists_registerAll_of_rel
      (fun type => (NamedType.alike_equivalence.refl type).covers)
      (fun name => optionRel_imp (fun _ _ => .defined)
        (h.rel_find? name))
      hDistinct' hGraph with
    ⟨graph', hGraph', hLookup⟩
  exact ⟨graph', hGraph', ⟨hLookup⟩⟩

end TypeGraph

namespace Pass

variable {pass pass' : Pass}

/- Passes whose types cover each other; the rest is the same. -/
structure Covers (pass pass' : Pass) : Prop where
  stage : pass.stage.Covers pass'.stage
  directives_eq : pass.directives = pass'.directives
  roots_eq : pass.roots = pass'.roots
  extending_eq : pass.extending = pass'.extending

/- A document is taken where it is taken by a pass that covers. -/
theorem Covers.exists_load
    {next : Pass}
    {file : Option String}
    {document : TypeSystemDocument}
    (h : pass.Covers pass')
    (hExtending : pass.extending = false)
    (hNext : pass.load file document = .ok next) :
    ∃ next', pass'.load file document = .ok next' ∧
      next.Covers next' := by
  rcases (load_parts_eq_ok_iff hExtending).1 hNext with
    ⟨stage, directives, roots, hStage, hDirectives, hRoots,
     rfl⟩
  rcases h.stage.exists_takeStages hStage with
    ⟨stage', hStage', hStages⟩
  rw [h.directives_eq] at hDirectives
  rw [h.roots_eq] at hRoots
  exact
    ⟨pass'.withParts stage' directives roots,
      (load_parts_eq_ok_iff (h.extending_eq ▸ hExtending)).2
        ⟨stage', directives, roots, hStage', hDirectives,
          hRoots, rfl⟩,
      hStages, rfl, rfl, h.extending_eq⟩

/- A pass builds a schema if one that covers it does. -/
theorem Covers.exists_build
    (h : pass.Covers pass')
    (hBuild : ∃ schema, pass.build none = .ok schema) :
    ∃ schema', pass'.build none = .ok schema' := by
  rcases hBuild with ⟨schema, hBuild⟩
  rcases build_eq_ok_iff.1 hBuild with
    ⟨draft, graph, hDraft, hGraph, hSchema⟩
  rcases h.stage.exists_settleKinds hDraft with
    ⟨draft', hDraft', hDrafts⟩
  rcases TypeGraph.exists_registerAll_of_covers hDrafts hGraph
    with ⟨graph', hGraph', hGraphs⟩
  rcases exists_assemble_of_covers hGraphs h.roots_eq hSchema
    with ⟨schema', hSchema', -⟩
  exact
    ⟨schema', build_eq_ok_iff.2 ⟨draft', graph', hDraft',
      hGraph', hSchema'⟩⟩

end Pass

end GraphQL
