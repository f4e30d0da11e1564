import Mathlib.Data.List.Perm.Basic
import GraphQL.Proofs.Execution.FieldsByKey
import GraphQL.Proofs.Schema.Alike

/-
  Documents with their selections in another order.

  A rearrangement moves the selections of selection sets, and
  tells which field of the one document is which field of the
  other. If it keeps the order of fields that share a key, then
  the same groups are collected from selections that it moved,
  in some other order, and of the same fields. Some of these
  may be repeated, and no two runs need repeat the same ones.

  Key definitions include:
    * `Rearrangement`, `Rearrangement.KeepsOrder`
    * `Rearrangement.Twins`: fields that were moved, in order
    * `Rearrangement.Alike`: selections of such fields

  Main declarations:
    * `Rearrangement.Twins.alike`
    * `Rearrangement.Alike.exists_groups`
    * `Rearrangement.acyclic_after`
-/

------------------------------------------------------------
-- Selections without Places
------------------------------------------------------------

namespace GraphQL

/- An annotation without its place. -/
def Annotation.unplaced (directive : Annotation) : Annotation :=
  { directive with position := default }

/- What a field is besides its place and its selections. -/
def FieldHead.unplaced (head : FieldHead) : FieldHead :=
  { head with
    position := default
    annotations := head.annotations.map Annotation.unplaced }

def FragmentSpread.unplaced (head : FragmentSpread) :
    FragmentSpread :=
  { head with
    position := default
    annotations := head.annotations.map Annotation.unplaced }

def InlineHead.unplaced (head : InlineHead) : InlineHead :=
  { head with
    position := default
    annotations := head.annotations.map Annotation.unplaced }

@[simp]
theorem FieldHead.name_unplaced (head : FieldHead) :
    head.unplaced.name = head.name :=
  rfl

@[simp]
theorem FieldHead.arguments_unplaced (head : FieldHead) :
    head.unplaced.arguments = head.arguments :=
  rfl

@[simp]
theorem FragmentSpread.name_unplaced (head : FragmentSpread) :
    head.unplaced.name = head.name :=
  rfl

------------------------------------------------------------
-- Rearrangements
------------------------------------------------------------

/-
  A selection whose parts are moved: its places may change, and
  so may the order of what is in it. Fields are moved as a
  relation tells.
-/
inductive Selection.Moves
    (Moved : FieldNode → FieldNode → Prop) :
    Selection → Selection → Prop where
  | field {head head' : FieldHead}
      {selections selections' : List Selection} :
      Moved ⟨head, selections⟩ ⟨head', selections'⟩ →
      Moves Moved (.field head selections)
        (.field head' selections')
  | spread {head head' : FragmentSpread} :
      head'.unplaced = head.unplaced →
      Moves Moved (.spread head) (.spread head')
  | inline {head head' : InlineHead}
      {selections arranged selections' : List Selection} :
      head'.unplaced = head.unplaced →
      selections.Perm arranged →
      List.Forall₂ (Moves Moved) arranged selections' →
      Moves Moved (.inline head selections)
        (.inline head' selections')

/- Selections in another order, with their parts moved. -/
def Selection.Rearranged
    (Moved : FieldNode → FieldNode → Prop)
    (selections selections' : List Selection) : Prop :=
  ∃ arranged, selections.Perm arranged ∧
    List.Forall₂ (Moves Moved) arranged selections'

/- Operations of one form on the same variables. -/
structure Operation.Akin
    (operation operation' : Operation) : Prop where
  kind : operation'.kind = operation.kind
  name : operation'.name = operation.name
  definitions : operation'.definitions = operation.definitions

theorem Operation.Akin.symm
    {operation operation' : Operation}
    (h : operation.Akin operation') : operation'.Akin operation :=
  ⟨h.kind.symm, h.name.symm, h.definitions.symm⟩

structure Operation.Rearranged
    (Moved : FieldNode → FieldNode → Prop)
    (operation operation' : Operation) : Prop where
  akin : operation.Akin operation'
  selections : Selection.Rearranged Moved operation.selections
    operation'.selections

/- A fragment of the same name on the same type. -/
structure Fragment.Rearranged
    (Moved : FieldNode → FieldNode → Prop)
    (fragment fragment' : Fragment) : Prop where
  name : fragment'.name = fragment.name
  condition : fragment'.condition = fragment.condition
  selections : Selection.Rearranged Moved fragment.selections
    fragment'.selections

inductive ExecutableDefinition.Rearranged
    (Moved : FieldNode → FieldNode → Prop) :
    ExecutableDefinition → ExecutableDefinition → Prop where
  | operation {operation operation' : Operation} :
      operation.Rearranged Moved operation' →
      Rearranged Moved (.operation operation)
        (.operation operation')
  | fragment {fragment fragment' : Fragment} :
      fragment.Rearranged Moved fragment' →
      Rearranged Moved (.fragment fragment) (.fragment fragment')

/-
  Two documents with the same selections in another order, and
  the fields of the second that fields of the first became.
-/
structure Rearrangement where
  before : ExecutableDocument
  after : ExecutableDocument
  Moved : FieldNode → FieldNode → Prop
  definitions :
    List.Forall₂ (ExecutableDefinition.Rearranged Moved) before
      after
  heads : ∀ node node', Moved node node' →
    node'.head.unplaced = node.head.unplaced
  selections : ∀ node node', Moved node node' →
    Selection.Rearranged Moved node.selections node'.selections

namespace Rearrangement

variable {self : Rearrangement}
variable {schema : Schema} {bindings : Entries Json}

/- What collects fields before and after. -/
def collector
    (self : Rearrangement)
    (schema : Schema)
    (bindings : Entries Json)
    (object : ObjectType) : Collector :=
  ⟨schema, self.before, bindings, object⟩

def collector'
    (self : Rearrangement)
    (schema : Schema)
    (bindings : Entries Json)
    (object : ObjectType) : Collector :=
  ⟨schema, self.after, bindings, object⟩

/-
  For every object type, the fields that are collected under a
  key stay in order.
-/
def InOrder
    (self : Rearrangement)
    (schema : Schema)
    (bindings : Entries Json)
    (selections selections' : List Selection) : Prop :=
  ∀ object, .defined (.object object) ∈ schema.types.types →
    ∀ key, List.Forall₂ self.Moved
      ((self.collector schema bindings object).fieldsAt key
        selections)
      ((self.collector' schema bindings object).fieldsAt key
        selections')

/- They do so in the selections of operations and fields. -/
structure KeepsOrder
    (rearrangement : Rearrangement)
    (schema : Schema)
    (bindings : Entries Json) : Prop where
  operations :
    List.Forall₂
      (fun operation operation' =>
        rearrangement.InOrder schema bindings
          operation.selections operation'.selections)
      rearrangement.before.operations
      rearrangement.after.operations
  fields : ∀ node node', rearrangement.Moved node node' →
    rearrangement.InOrder schema bindings node.selections
      node'.selections

------------------------------------------------------------
-- Fields That Were Moved
------------------------------------------------------------

/- Fields that were moved, and fields that repeat them. -/
def Twins
    (self : Rearrangement)
    (nodes nodes' : List FieldNode) : Prop :=
  ∃ all all', List.Forall₂ self.Moved all all' ∧
    Repeats nodes all ∧ Repeats nodes' all'

/- For every object type, there are twins under each key. -/
def Alike
    (self : Rearrangement)
    (schema : Schema)
    (bindings : Entries Json)
    (selections selections' : List Selection) : Prop :=
  ∀ object, .defined (.object object) ∈ schema.types.types →
    ∀ key, self.Twins
      ((self.collector schema bindings object).fieldsAt key
        selections)
      ((self.collector' schema bindings object).fieldsAt key
        selections')

/- Groups of one key with fields that were moved. -/
structure TwinGroups
    (rearrangement : Rearrangement)
    (group group' : FieldGroup) : Prop where
  key : group'.key = group.key
  nodes : rearrangement.Twins group.nodes group'.nodes

variable {nodes nodes' : List FieldNode}
variable {selections selections' : List Selection}

theorem InOrder.alike
    (h : self.InOrder schema bindings selections selections') :
    self.Alike schema bindings selections selections' :=
  fun object hObject key =>
    ⟨_, _, h object hObject key, .refl _, .refl _⟩

/- No fields have no twins. -/
theorem Twins.eq_nil_iff (h : self.Twins nodes nodes') :
    nodes = [] ↔ nodes' = [] := by
  rcases h with ⟨all, all', hMoved, hNodes, hNodes'⟩
  have hSame : all = [] ↔ all' = [] := by
    rw [← List.length_eq_zero_iff, hMoved.length_eq,
      List.length_eq_zero_iff]
  have hNil : ∀ {xs ys : List FieldNode}, Repeats xs ys →
      (xs = [] ↔ ys = []) := by
    intro xs ys hRepeats
    rw [← List.head?_eq_none_iff, hRepeats.head?_eq,
      List.head?_eq_none_iff]
  rw [hNil hNodes, hSame, hNil hNodes']

/- The first fields of twins are the same field. -/
theorem TwinGroups.first
    {group group' : FieldGroup}
    (h : self.TwinGroups group group') :
    self.Moved group.first group'.first := by
  rcases h.nodes with ⟨all, all', hMoved, hNodes, hNodes'⟩
  have hFirst := hNodes.head?_eq
  have hFirst' := hNodes'.head?_eq
  simp only [FieldGroup.nodes, List.head?_cons] at hFirst hFirst'
  cases hMoved with
  | nil => cases hFirst
  | cons hHead _ =>
      cases hFirst
      cases hFirst'
      exact hHead

/-
  The selections of twins have twins under each key: each of
  the fields has its own, and what is repeated among the fields
  is repeated among these.
-/
theorem Twins.alike
    (hKeeps : self.KeepsOrder schema bindings)
    (h : self.Twins nodes nodes') :
    self.Alike schema bindings
      (nodes.flatMap FieldNode.selections)
      (nodes'.flatMap FieldNode.selections) := by
  rcases h with ⟨all, all', hMoved, hNodes, hNodes'⟩
  intro object hObject key
  refine ⟨_, _, List.rel_flatMap hMoved ?_,
    (Collector.repeats_fieldsAt_flatMap _ key nodes _).trans
      (hNodes.flatMap _),
    (Collector.repeats_fieldsAt_flatMap _ key nodes' _).trans
      (hNodes'.flatMap _)⟩
  intro node node' hNode
  exact hKeeps.fields node node' hNode object hObject key

------------------------------------------------------------
-- Groups
------------------------------------------------------------

/- Lists with the same distinct keys are paired by them. -/
theorem exists_forall₂_of_keys
    {α β : Type}
    {key : α → String}
    {key' : β → String}
    {items : List α}
    {items' : List β}
    (hNodup : (items.map key).Nodup)
    (hNodup' : (items'.map key').Nodup)
    (hSame : ∀ name, name ∈ items.map key ↔
      name ∈ items'.map key') :
    ∃ arranged, arranged.Perm items' ∧
      List.Forall₂ (fun a b => a ∈ items ∧ b ∈ items' ∧
        key' b = key a) items arranged := by
  have hPerm : (items.map key).Perm (items'.map key') :=
    (List.perm_ext_iff_of_nodup hNodup hNodup').2 hSame
  have hArranged : Relation.Comp
      (fun keys others => keys = others.map key') List.Perm
      (items.map key) items' := by
    rw [List.eq_map_comp_perm]
    exact hPerm
  rcases hArranged with ⟨arranged, hKeys, hArranged⟩
  have hPairs :
      List.Forall₂ (fun a b => key a = key' b) items arranged := by
    rw [← List.forall₂_eq_eq_eq, List.forall₂_map_left_iff,
      List.forall₂_map_right_iff] at hKeys
    exact hKeys
  rcases List.forall₂_iff_zip.1 hPairs with ⟨hLength, hZip⟩
  refine ⟨arranged, hArranged,
    List.forall₂_iff_zip.2 ⟨hLength, ?_⟩⟩
  intro a b hMem
  rcases List.of_mem_zip hMem with ⟨ha, hb⟩
  exact ⟨ha, hArranged.subset hb, (hZip hMem).symm⟩

/-
  From selections that are alike the same groups are collected,
  in some order.
-/
theorem Alike.exists_groups
    (h : self.Alike schema bindings selections selections')
    {object : ObjectType}
    (hObject :
      .defined (.object object) ∈ schema.types.types) :
    ∃ arranged,
      arranged.Perm
          ((self.collector' schema bindings object).collect
            selections') ∧
        List.Forall₂ self.TwinGroups
          ((self.collector schema bindings object).collect
            selections)
          arranged := by
  have hTwins := h object hObject
  have hSame : ∀ name,
      name ∈ ((self.collector schema bindings object).collect
          selections).map FieldGroup.key ↔
        name ∈ ((self.collector' schema bindings object).collect
          selections').map FieldGroup.key := by
    intro name
    rw [← not_iff_not, ← FieldGroup.fieldsAt_eq_nil_iff,
      ← FieldGroup.fieldsAt_eq_nil_iff]
    exact (hTwins name).eq_nil_iff
  rcases exists_forall₂_of_keys
      (Collector.nodup_keys_collect _ selections)
      (Collector.nodup_keys_collect _ selections') hSame with
    ⟨arranged, hPerm, hPairs⟩
  refine ⟨arranged, hPerm, hPairs.imp ?_⟩
  rintro group group' ⟨hGroup, hGroup', hKey⟩
  refine ⟨hKey, ?_⟩
  rw [Collector.nodes_eq_fieldsAt hGroup,
    Collector.nodes_eq_fieldsAt hGroup', hKey]
  exact hTwins group.key

/- Groups of fields that were moved have them under any key. -/
theorem forall₂_fieldsAt
    {groups groups' : List FieldGroup}
    (h : List.Forall₂
      (fun group group' => group'.key = group.key ∧
        List.Forall₂ self.Moved group.nodes group'.nodes)
      groups groups')
    (key : String) :
    List.Forall₂ self.Moved (FieldGroup.fieldsAt key groups)
      (FieldGroup.fieldsAt key groups') := by
  induction h with
  | nil => exact .nil
  | cons hGroup _ ih =>
      rw [FieldGroup.fieldsAt_cons, FieldGroup.fieldsAt_cons,
        hGroup.1]
      refine List.rel_append ?_ ih
      split
      · exact hGroup.2
      · exact .nil

/-
  Fields stay in order if the same groups are collected, in
  some order, of fields that were moved.
-/
theorem inOrder_of_groups
    (h : ∀ object,
      .defined (.object object) ∈ schema.types.types →
        ∃ arranged,
          arranged.Perm
              ((self.collector' schema bindings object).collect
                selections') ∧
            List.Forall₂
              (fun group group' => group'.key = group.key ∧
                List.Forall₂ self.Moved group.nodes group'.nodes)
              ((self.collector schema bindings object).collect
                selections)
              arranged) :
    self.InOrder schema bindings selections selections' := by
  intro object hObject key
  rcases h object hObject with ⟨arranged, hPerm, hGroups⟩
  rw [Collector.fieldsAt, Collector.fieldsAt,
    FieldGroup.fieldsAt_perm
      (Collector.nodup_keys_collect _ selections') hPerm.symm]
  exact forall₂_fieldsAt hGroups key

------------------------------------------------------------
-- Documents
------------------------------------------------------------

/- The operations are rearranged one by one. -/
theorem operations_rearranged (self : Rearrangement) :
    List.Forall₂ (Operation.Rearranged self.Moved)
      self.before.operations self.after.operations := by
  refine List.rel_filterMap ?_ self.definitions
  intro definition definition' hDefinition
  cases hDefinition with
  | operation hOperation => exact .some hOperation
  | fragment _ => exact .none

/- So is the fragment of any name. -/
theorem fragment?_rearranged
    (self : Rearrangement)
    (name : String) :
    Option.Rel (Fragment.Rearranged self.Moved)
      (self.before.fragment? name)
      (self.after.fragment? name) := by
  have hFragments :
      List.Forall₂ (Fragment.Rearranged self.Moved)
        self.before.fragments self.after.fragments := by
    refine List.rel_filterMap ?_ self.definitions
    intro definition definition' hDefinition
    cases hDefinition with
    | operation _ => exact .none
    | fragment hFragment => exact .some hFragment
  exact rel_find?_of_forall₂
    (fun _ _ hFragment => hFragment.name.symm)
    (List.forall₂_reverse_iff.2 hFragments) name

/- Selections spread the same in any order. -/
theorem spreadsAll_subset_of_perm
    {arranged : List Selection}
    (h : selections.Perm arranged) :
    Selection.spreadsAll arranged ⊆
      Selection.spreadsAll selections := by
  rw [Selection.spreadsAll_eq, Selection.spreadsAll_eq]
  exact (h.flatMap_right Selection.spreads).symm.subset

mutual

theorem spreads_subset_of_moves (self : Rearrangement) :
    (selection' : Selection) → (selection : Selection) →
      selection.Moves self.Moved selection' →
        selection'.spreads ⊆ selection.spreads
| .field _ selections', _, h => by
    cases h with
    | field hMoved =>
        rcases self.selections _ _ hMoved with
          ⟨arranged, hPerm, hMoves⟩
        exact List.Subset.trans
          (spreadsAll_subset_of_moves self selections' _ hMoves)
          (spreadsAll_subset_of_perm hPerm)
| .spread head', _, h => by
    cases h with
    | @spread head _ hHead =>
        have hName : head'.name = head.name :=
          by simpa using congrArg FragmentSpread.name hHead
        rw [Selection.spreads, Selection.spreads, hName]
        exact List.Subset.refl _
| .inline _ selections', _, h => by
    cases h with
    | inline _ hPerm hMoves =>
        exact List.Subset.trans
          (spreadsAll_subset_of_moves self selections' _ hMoves)
          (spreadsAll_subset_of_perm hPerm)

/- Nothing more is spread by what is moved. -/
theorem spreadsAll_subset_of_moves (self : Rearrangement) :
    (selections' : List Selection) →
      (arranged : List Selection) →
      List.Forall₂ (Selection.Moves self.Moved) arranged
          selections' →
        Selection.spreadsAll selections' ⊆
          Selection.spreadsAll arranged
| [], _, _ => List.nil_subset _
| selection' :: rest', _, h => by
    cases h with
    | cons hFirst hRest =>
        rw [Selection.spreadsAll, Selection.spreadsAll]
        exact List.append_subset.2
          ⟨List.subset_append_of_subset_left _
              (spreads_subset_of_moves self selection' _ hFirst),
            List.subset_append_of_subset_right _
              (spreadsAll_subset_of_moves self rest' _ hRest)⟩

end

/- Fragments that do not spread themselves still do not. -/
theorem acyclic_after
    (self : Rearrangement)
    (h : self.before.Acyclic) : self.after.Acyclic := by
  have hStep : ∀ name other, self.after.Spreads name other →
      self.before.Spreads name other := by
    rintro name other ⟨fragment', hFound', hOther⟩
    rcases exists_of_rel_some
        (hFound' ▸ self.fragment?_rearranged name) with
      ⟨fragment, hFound, hFragment⟩
    rcases hFragment.selections with ⟨arranged, hPerm, hMoves⟩
    exact ⟨fragment, hFound,
      spreadsAll_subset_of_perm hPerm
        (self.spreadsAll_subset_of_moves _ _ hMoves hOther)⟩
  intro name hChain
  exact h name (Relation.TransGen.mono hStep _ _ hChain)

end Rearrangement

end GraphQL
