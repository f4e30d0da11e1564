import Mathlib.Data.List.Perm.Subperm
import Mathlib.Logic.Relation
import GraphQL.Execution.Collection

/-
  Normal forms of documents: excluded selections are deleted,
  and spreads of fragments are replaced by inline fragments.

  A document whose fragments do not spread themselves has
  finite chains of fragments, so the number of its fragments is
  depth enough to replace every spread.

  Key definitions include:
    * `ExecutableDocument.Acyclic`
    * `Normaliser`, `ExecutableDocument.normalise`

  Main declarations:
    * `Normaliser.selections_eq`
    * `Normaliser.spreadsAll_selections`
-/

------------------------------------------------------------
-- Spreads
------------------------------------------------------------

namespace GraphQL

mutual

/- The names of the fragments spread anywhere in a selection. -/
def Selection.spreads : Selection → List String
| .field _ selections => spreadsAll selections
| .spread head => [head.name]
| .inline _ selections => spreadsAll selections

/- The names of the fragments spread anywhere in selections. -/
def Selection.spreadsAll : List Selection → List String
| [] => []
| selection :: rest => selection.spreads ++ spreadsAll rest

end

/- Selections spread what each of them spreads. -/
theorem Selection.spreadsAll_eq (selections : List Selection) :
    spreadsAll selections = selections.flatMap spreads := by
  induction selections with
  | nil => rfl
  | cons selection rest ih =>
      rw [spreadsAll, ih, List.flatMap_cons]

/- Parts spread nothing if none of them does. -/
theorem Selection.spreadsAll_flatMap_eq_nil
    {α : Type}
    {parts : List α}
    {part : α → List Selection}
    (h : ∀ a ∈ parts, spreadsAll (part a) = []) :
    spreadsAll (parts.flatMap part) = [] := by
  simp only [spreadsAll_eq, List.flatMap_assoc] at h ⊢
  exact List.flatMap_eq_nil_iff.mpr h

namespace ExecutableDocument

/- The fragment of a name has that name. -/
theorem of_fragment?_eq_some
    {document : ExecutableDocument}
    {name : String}
    {fragment : Fragment}
    (h : document.fragment? name = some fragment) :
    fragment ∈ document.fragments ∧ fragment.name = name := by
  have hMem := List.mem_of_find?_eq_some h
  have hName := List.find?_some h
  exact ⟨List.mem_reverse.mp hMem, by simpa using hName⟩

/- The fragment of a name spreads another anywhere in it. -/
def Spreads (document : ExecutableDocument)
    (name other : String) : Prop :=
  ∃ fragment, document.fragment? name = some fragment ∧
    other ∈ Selection.spreadsAll fragment.selections

/- No fragment spreads itself, directly or through others. -/
def Acyclic (document : ExecutableDocument) : Prop :=
  ∀ name, ¬ Relation.TransGen document.Spreads name name

/- Fragments that can be ranked do not spread themselves. -/
theorem acyclic_of_rank
    {document : ExecutableDocument}
    (rank : String → Nat)
    (hRank : ∀ fragment ∈ document.fragments,
      ∀ other ∈ Selection.spreadsAll fragment.selections,
        rank other < rank fragment.name) :
    document.Acyclic := by
  have hStep : ∀ {name other : String},
      document.Spreads name other → rank other < rank name := by
    intro name other h
    rcases h with ⟨fragment, hFound, hOther⟩
    rcases of_fragment?_eq_some hFound with ⟨hMem, rfl⟩
    exact hRank fragment hMem other hOther
  have hChain : ∀ {name other : String},
      Relation.TransGen document.Spreads name other →
        rank other < rank name := by
    intro name other h
    induction h with
    | single h => exact hStep h
    | tail _ h ih => exact Nat.lt_trans (hStep h) ih
  exact fun name h => Nat.lt_irrefl _ (hChain h)

------------------------------------------------------------
-- Chains
------------------------------------------------------------

/- Names of distinct fragments that lead to selections. -/
structure Chain
    (document : ExecutableDocument)
    (names : List String)
    (selections : List Selection) : Prop where
  nodup : names.Nodup
  defined : ∀ name ∈ names, (document.fragment? name).isSome
  leads : ∀ name ∈ names,
    ∀ other ∈ Selection.spreadsAll selections,
      Relation.TransGen document.Spreads name other

namespace Chain

variable {document : ExecutableDocument}
variable {names : List String}
variable {selections : List Selection}

/- Without fragments, nothing leads to selections. -/
theorem nil (selections : List Selection) :
    document.Chain [] selections :=
  ⟨List.nodup_nil, nofun, nofun⟩

/- No fragment of a chain is spread where the chain leads. -/
theorem not_mem
    (hAcyclic : document.Acyclic)
    (h : document.Chain names selections)
    {name : String}
    (hSpread : name ∈ Selection.spreadsAll selections) :
    name ∉ names :=
  fun hMem => hAcyclic name (h.leads name hMem name hSpread)

/- A spread fragment extends the chain. -/
theorem enter
    (hAcyclic : document.Acyclic)
    (h : document.Chain names selections)
    {name : String}
    {fragment : Fragment}
    (hSpread : name ∈ Selection.spreadsAll selections)
    (hFound : document.fragment? name = some fragment) :
    document.Chain (name :: names) fragment.selections := by
  have hNew := h.not_mem hAcyclic hSpread
  refine ⟨List.nodup_cons.mpr ⟨hNew, h.nodup⟩, ?_, ?_⟩
  · intro found hMem
    rcases List.mem_cons.mp hMem with rfl | hMem
    · rw [hFound]
      rfl
    · exact h.defined found hMem
  · intro found hMem other hOther
    have hStep : document.Spreads name other :=
      ⟨fragment, hFound, hOther⟩
    rcases List.mem_cons.mp hMem with rfl | hMem
    · exact .single hStep
    · exact (h.leads found hMem name hSpread).tail hStep

/- A chain is no longer than the list of fragments. -/
theorem length_le (h : document.Chain names selections) :
    names.length ≤ document.fragments.length := by
  have hSub : names ⊆ document.fragments.map Fragment.name := by
    intro name hName
    rcases Option.isSome_iff_exists.mp (h.defined name hName)
      with ⟨fragment, hFound⟩
    rcases of_fragment?_eq_some hFound with ⟨hMem, rfl⟩
    exact List.mem_map_of_mem hMem
  have hLength :=
    (List.subperm_of_subset h.nodup hSub).length_le
  rwa [List.length_map] at hLength

/- A chain that can be extended is shorter than that. -/
theorem length_lt
    (hAcyclic : document.Acyclic)
    (h : document.Chain names selections)
    {name : String}
    {fragment : Fragment}
    (hSpread : name ∈ Selection.spreadsAll selections)
    (hFound : document.fragment? name = some fragment) :
    names.length < document.fragments.length :=
  (h.enter hAcyclic hSpread hFound).length_le

end Chain

end ExecutableDocument

------------------------------------------------------------
-- Normal Forms
------------------------------------------------------------

/- What decides the normal form of selections. -/
structure Normaliser where
  document : ExecutableDocument
  bindings : Entries Json

namespace Normaliser

/- The inline fragment in place of a spread. -/
def inlined (head : FragmentSpread) (fragment : Fragment)
    (selections : List Selection) : Selection :=
  .inline ⟨head.position, some fragment.condition,
    head.annotations⟩ selections

mutual

/- The normal form of a selection, given that of fragments. -/
def one
    (self : Normaliser)
    (enter : Fragment → List Selection) :
    Selection → List Selection
| .field head selections =>
    if (Selection.field head selections).isIncluded
        self.bindings then
      [.field head (all self enter selections)]
    else
      []
| .spread head =>
    if (Selection.spread head).isIncluded self.bindings then
      match self.document.fragment? head.name with
      | none => []
      | some fragment => [inlined head fragment (enter fragment)]
    else
      []
| .inline head selections =>
    if (Selection.inline head selections).isIncluded
        self.bindings then
      [.inline head (all self enter selections)]
    else
      []

/- The normal form of selections, given that of fragments. -/
def all
    (self : Normaliser)
    (enter : Fragment → List Selection) :
    List Selection → List Selection
| [] => []
| selection :: rest =>
    one self enter selection ++ all self enter rest

end

/- The normal form, entering fragments to some depth. -/
def within (self : Normaliser) :
    (depth : Nat) → List Selection → List Selection
| 0, selections => self.all (fun _ => []) selections
| depth + 1, selections =>
    self.all
      (fun fragment => within self depth fragment.selections)
      selections

/- The normal form of selections. -/
def selections (self : Normaliser) (selections : List Selection) :
    List Selection :=
  self.within self.document.fragments.length selections

/- The normal form of what a fragment selects. -/
def body (self : Normaliser) (fragment : Fragment) :
    List Selection :=
  self.selections fragment.selections

/- The normal form of a field. -/
def node (self : Normaliser) (node : FieldNode) : FieldNode :=
  ⟨node.head, self.selections node.selections⟩

/- The normal form of an operation. -/
def operation (self : Normaliser) (operation : Operation) :
    Operation :=
  { operation with
    selections := self.selections operation.selections }

/- The normal form of a definition. -/
def definition (self : Normaliser) :
    ExecutableDefinition → ExecutableDefinition
| .operation definition => .operation (self.operation definition)
| .fragment definition =>
    .fragment
      { definition with
        selections := self.selections definition.selections }

end Normaliser

namespace ExecutableDocument

/- What decides normal forms under coerced variables. -/
def normaliser
    (document : ExecutableDocument)
    (bindings : Entries Json) : Normaliser :=
  ⟨document, bindings⟩

/-
  The normal form of a document under coerced variables:
  excluded selections are deleted, and each spread is replaced
  by an inline fragment or, for want of a fragment, deleted.
-/
def normalise
    (document : ExecutableDocument)
    (bindings : Entries Json) : ExecutableDocument :=
  document.map (document.normaliser bindings).definition

/- The operations of a normal form. -/
theorem operations_normalise
    (document : ExecutableDocument)
    (bindings : Entries Json) :
    (document.normalise bindings).operations =
      document.operations.map
        (document.normaliser bindings).operation := by
  simp only [operations, normalise, List.filterMap_map,
    List.map_filterMap]
  congr 1
  funext definition
  cases definition <;> rfl

end ExecutableDocument

------------------------------------------------------------
-- Entering Fragments
------------------------------------------------------------

namespace Normaliser

variable {enter other : Fragment → List Selection}

/- Selections are brought to normal form one by one. -/
theorem all_eq (self : Normaliser) (selections : List Selection) :
    self.all enter selections =
      selections.flatMap (self.one enter) := by
  induction selections with
  | nil => rfl
  | cons selection rest ih =>
      rw [all, ih, List.flatMap_cons]

mutual

/- The normal form of a selection asks for what it spreads. -/
theorem one_congr (self : Normaliser) :
    (selection : Selection) →
      (∀ name ∈ selection.spreads, ∀ fragment,
        self.document.fragment? name = some fragment →
          enter fragment = other fragment) →
      self.one enter selection = self.one other selection
| .field head selections, h => by
    rw [one, one, all_congr self selections h]
| .spread head, h => by
    rw [one, one]
    split
    · split
      · rfl
      · next fragment hFound =>
          have hName := List.mem_singleton_self head.name
          rw [h head.name hName fragment hFound]
    · rfl
| .inline head selections, h => by
    rw [one, one, all_congr self selections h]

/- The normal form of selections asks for what they spread. -/
theorem all_congr (self : Normaliser) :
    (selections : List Selection) →
      (∀ name ∈ Selection.spreadsAll selections, ∀ fragment,
        self.document.fragment? name = some fragment →
          enter fragment = other fragment) →
      self.all enter selections = self.all other selections
| [], _ => rfl
| selection :: rest, h => by
    rw [all, all,
      one_congr self selection fun name hName =>
        h name (List.mem_append_left _ hName),
      all_congr self rest fun name hName =>
        h name (List.mem_append_right _ hName)]

end

/-
  Where a chain of fragments leads, the fragments that are not
  in it are depth enough.
-/
theorem within_succ_of_chain
    (self : Normaliser)
    (hAcyclic : self.document.Acyclic)
    (depth : Nat)
    {names : List String}
    {selections : List Selection}
    (hChain : self.document.Chain names selections)
    (hDepth : self.document.fragments.length ≤
      depth + names.length) :
    self.within (depth + 1) selections =
      self.within depth selections := by
  induction depth generalizing names selections with
  | zero =>
      refine self.all_congr selections ?_
      intro name hName fragment hFound
      have hLength := hChain.length_lt hAcyclic hName hFound
      omega
  | succ depth ih =>
      refine self.all_congr selections ?_
      intro name hName fragment hFound
      refine ih (hChain.enter hAcyclic hName hFound) ?_
      rw [List.length_cons]
      omega

/- Every spread is replaced by a normal form. -/
theorem selections_eq
    (self : Normaliser)
    (hAcyclic : self.document.Acyclic)
    (selections : List Selection) :
    self.selections selections =
      self.all self.body selections :=
  (self.within_succ_of_chain hAcyclic _ (.nil selections)
    (Nat.le_add_right _ _)).symm

/- The normal form of parts, one after the other. -/
theorem selections_flatMap
    {α : Type}
    (self : Normaliser)
    (parts : List α)
    (part : α → List Selection) :
    self.selections (parts.flatMap part) =
      parts.flatMap fun a => self.selections (part a) := by
  unfold selections
  cases self.document.fragments.length <;>
    simp [within, all_eq, List.flatMap_assoc]

------------------------------------------------------------
-- Absence of Spreads
------------------------------------------------------------

mutual

theorem spreadsAll_one
    (self : Normaliser)
    (hEnter : ∀ fragment,
      Selection.spreadsAll (enter fragment) = []) :
    (selection : Selection) →
      Selection.spreadsAll (self.one enter selection) = []
| .field head selections => by
    have hAll := spreadsAll_all self hEnter selections
    rw [one]
    split
    · simp [Selection.spreadsAll, Selection.spreads, hAll]
    · rfl
| .spread head => by
    rw [one]
    split
    · split
      · rfl
      · next fragment _ =>
          simp [inlined, Selection.spreadsAll, Selection.spreads,
            hEnter fragment]
    · rfl
| .inline head selections => by
    have hAll := spreadsAll_all self hEnter selections
    rw [one]
    split
    · simp [Selection.spreadsAll, Selection.spreads, hAll]
    · rfl

theorem spreadsAll_all
    (self : Normaliser)
    (hEnter : ∀ fragment,
      Selection.spreadsAll (enter fragment) = []) :
    (selections : List Selection) →
      Selection.spreadsAll (self.all enter selections) = []
| [] => rfl
| selection :: rest => by
    have hFirst := spreadsAll_one self hEnter selection
    have hRest := spreadsAll_all self hEnter rest
    rw [Selection.spreadsAll_eq] at hFirst hRest ⊢
    rw [all, List.flatMap_append, hFirst, hRest,
      List.append_nil]

end

/- Normal forms spread no fragments. -/
theorem spreadsAll_selections
    (self : Normaliser)
    (selections : List Selection) :
    Selection.spreadsAll (self.selections selections) = [] := by
  unfold Normaliser.selections
  induction self.document.fragments.length
    generalizing selections with
  | zero => exact self.spreadsAll_all (fun _ => rfl) selections
  | succ depth ih =>
      exact self.spreadsAll_all
        (fun fragment => ih fragment.selections) selections

end Normaliser

end GraphQL
