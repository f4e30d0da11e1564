import GraphQL.Proofs.Execution.Normalisation
import GraphQL.Proofs.Execution.Repeats

/-
  Collection and normal forms: what is collected from
  selections are the fields of their normal form, less some
  that are met again.

  Collection enters a named fragment once, while the normal
  form holds its fields wherever it is spread. The fields of a
  fragment that is not entered again were all met before, as
  the fragment is not among those being entered.

  Key definitions include:
    * `Collector.nodesAll`
    * `Collector.Gathered`

  Main declarations:
    * `Collector.collectWithin_gathers`
    * `Collector.forall₂_collect`
-/

------------------------------------------------------------
-- Fields of Selections
------------------------------------------------------------

namespace GraphQL

namespace Collector

/- Whether an inline fragment applies to the object type. -/
def applies (self : Collector) (head : InlineHead) : Bool :=
  match head.condition with
  | some condition =>
      self.schema.fragmentApplies self.object condition
  | none => true

mutual

/- The fields of a selection, those of spreads aside. -/
def nodesOne (self : Collector) : Selection → List FieldNode
| .field head selections =>
    if (Selection.field head selections).isIncluded
        self.bindings then
      [⟨head, selections⟩]
    else
      []
| .spread _ => []
| .inline head selections =>
    if (Selection.inline head selections).isIncluded
        self.bindings && self.applies head then
      nodesAll self selections
    else
      []

/- The fields of selections, those of spreads aside. -/
def nodesAll (self : Collector) : List Selection → List FieldNode
| [] => []
| selection :: rest =>
    nodesOne self selection ++ nodesAll self rest

end

/- Selections have the fields of each of them. -/
theorem nodesAll_eq (self : Collector)
    (selections : List Selection) :
    self.nodesAll selections =
      selections.flatMap self.nodesOne := by
  induction selections with
  | nil => rfl
  | cons selection rest ih =>
      rw [nodesAll, ih, List.flatMap_cons]

/- The fields of selections that follow each other. -/
theorem nodesAll_append (self : Collector)
    (selections rest : List Selection) :
    self.nodesAll (selections ++ rest) =
      self.nodesAll selections ++ self.nodesAll rest := by
  simp only [nodesAll_eq, List.flatMap_append]

/- The fields of parts, one after the other. -/
theorem nodesAll_flatMap
    {α : Type}
    (self : Collector)
    (parts : List α)
    (part : α → List Selection) :
    self.nodesAll (parts.flatMap part) =
      parts.flatMap fun a => self.nodesAll (part a) := by
  simp only [nodesAll_eq, List.flatMap_assoc]

------------------------------------------------------------
-- Selections without Spreads
------------------------------------------------------------

mutual

theorem collectOne_of_free
    (self : Collector)
    (document : ExecutableDocument)
    (enter : Fragment → Collected → Collected) :
    (selection : Selection) → (done : Collected) →
      selection.spreads = [] →
        collectOne { self with document := document } enter
            selection done =
          { done with
            groups := FieldGroup.addAll (self.nodesOne selection)
              done.groups }
| .field head selections, done, _ => by
    rw [collectOne, nodesOne]
    split <;> rfl
| .spread head, done, h => by simp [Selection.spreads] at h
| .inline head selections, done, h => by
    have hAll :=
      collectAll_of_free self document enter selections done h
    rw [collectOne, nodesOne]
    change (if _ && self.applies head then _ else _) = _
    split
    · exact hAll
    · rfl

theorem collectAll_of_free
    (self : Collector)
    (document : ExecutableDocument)
    (enter : Fragment → Collected → Collected) :
    (selections : List Selection) → (done : Collected) →
      Selection.spreadsAll selections = [] →
        collectAll { self with document := document } enter
            selections done =
          { done with
            groups := FieldGroup.addAll
              (self.nodesAll selections) done.groups }
| [], _, _ => rfl
| selection :: rest, done, h => by
    rw [Selection.spreadsAll, List.append_eq_nil_iff] at h
    rw [collectAll, nodesAll,
      collectOne_of_free self document enter selection done h.1,
      collectAll_of_free self document enter rest _ h.2]
    simp [FieldGroup.addAll]

end

/- Without spreads, every field is collected. -/
theorem collect_of_free
    (self : Collector)
    (document : ExecutableDocument)
    {selections : List Selection}
    (h : Selection.spreadsAll selections = []) :
    collect { self with document := document } selections =
      FieldGroup.ofNodes (self.nodesAll selections) := by
  unfold collect
  cases document.fragments.length <;>
    rw [collectWithin, self.collectAll_of_free _ _ _ _ h] <;> rfl

------------------------------------------------------------
-- Fragments Entered Once
------------------------------------------------------------

/- What decides the normal form of what is collected. -/
def normaliser (self : Collector) : Normaliser :=
  self.document.normaliser self.bindings

@[simp]
theorem normaliser_bindings (self : Collector) :
    self.normaliser.bindings = self.bindings :=
  rfl

@[simp]
theorem normaliser_document (self : Collector) :
    self.normaliser.document = self.document :=
  rfl

/-
  The fields of the normal form that were met are those
  collected, in normal form, with some of them repeated. Of a
  fragment that was visited, and is not being entered, all
  fields were met.
-/
structure Gathered
    (collector : Collector)
    (entered : List String)
    (done : Collected)
    (met : List FieldNode) : Prop where
  groups : ∃ nodes, done.groups = FieldGroup.ofNodes nodes ∧
    Repeats (nodes.map collector.normaliser.node) met
  visited : ∀ name ∈ done.visited, name ∉ entered →
    ∀ fragment,
      collector.document.fragment? name = some fragment →
      collector.schema.fragmentApplies collector.object
          fragment.condition = true →
        collector.nodesAll (collector.normaliser.body fragment) ⊆
          met

namespace Gathered

variable {self : Collector}
variable {entered : List String}
variable {done : Collected}
variable {met : List FieldNode}

/- At first nothing was met. -/
theorem nil (self : Collector) (entered : List String) :
    self.Gathered entered ⟨[], []⟩ [] :=
  ⟨⟨[], rfl, .nil⟩, nofun⟩

/- A field is collected and met. -/
theorem addField
    (h : self.Gathered entered done met)
    (node : FieldNode) :
    self.Gathered entered (done.addField node)
      (met ++ [self.normaliser.node node]) := by
  rcases h.groups with ⟨nodes, hGroups, hMet⟩
  refine ⟨⟨nodes ++ [node], ?_, ?_⟩, ?_⟩
  · rw [FieldGroup.ofNodes_append_singleton, ← hGroups]
    rfl
  · rw [List.map_append]
    exact hMet.first _
  · intro name hName hNew fragment hFound hApplies a hMem
    exact List.mem_append_left _
      (h.visited name hName hNew fragment hFound hApplies hMem)

/- Fields that were met may be met again. -/
theorem append_subset
    (h : self.Gathered entered done met)
    {nodes : List FieldNode}
    (hSub : nodes ⊆ met) :
    self.Gathered entered done (met ++ nodes) := by
  rcases h.groups with ⟨collected, hGroups, hMet⟩
  refine ⟨⟨collected, hGroups, hMet.append_subset hSub⟩, ?_⟩
  intro name hName hNew fragment hFound hApplies a hMem
  exact List.mem_append_left _
    (h.visited name hName hNew fragment hFound hApplies hMem)

/- A fragment is visited as it is entered. -/
theorem visit
    (h : self.Gathered entered done met)
    (name : String) :
    self.Gathered (name :: entered)
      { done with visited := name :: done.visited } met := by
  refine ⟨h.groups, ?_⟩
  intro found hFound hNew
  rw [List.mem_cons, not_or] at hNew
  rcases List.mem_cons.mp hFound with hName | hFound
  · exact absurd hName hNew.1
  · exact h.visited found hFound hNew.2

/- A fragment is left once its fields were met. -/
theorem leave
    {name : String}
    (h : self.Gathered (name :: entered) done met)
    (hMet : ∀ fragment,
      self.document.fragment? name = some fragment →
      self.schema.fragmentApplies self.object
          fragment.condition = true →
        self.nodesAll (self.normaliser.body fragment) ⊆ met) :
    self.Gathered entered done met := by
  refine ⟨h.groups, ?_⟩
  intro found hFound hNew fragment
  by_cases hName : found = name
  · subst hName
    exact hMet fragment
  · refine h.visited found hFound ?_ fragment
    rw [List.mem_cons, not_or]
    exact ⟨hName, hNew⟩

end Gathered

/- Entering the fragments of some names gathers their fields. -/
def Enters
    (self : Collector)
    (enter : Fragment → Collected → Collected)
    (entered names : List String) : Prop :=
  ∀ name ∈ names, name ∉ entered ∧
    ∀ fragment,
      self.document.fragment? name = some fragment →
      ∀ done met, self.Gathered (name :: entered) done met →
        self.Gathered (name :: entered) (enter fragment done)
          (met ++ self.nodesAll (self.normaliser.body fragment))

------------------------------------------------------------
-- Collection
------------------------------------------------------------

variable {enter : Fragment → Collected → Collected}
variable {entered : List String}

/- A field that is included is met in normal form. -/
theorem nodesAll_field
    (self : Collector)
    {head : FieldHead}
    {selections : List Selection}
    (h : (Selection.field head selections).isIncluded
      self.bindings = true)
    (others : List Selection) :
    self.nodesAll [.field head others] = [⟨head, others⟩] := by
  have hOthers :
      (Selection.field head others).isIncluded self.bindings =
        true := h
  rw [nodesAll, nodesOne, if_pos hOthers, nodesAll]
  rfl

/- The fields of an inline fragment that is included. -/
theorem nodesAll_inline
    (self : Collector)
    {head : InlineHead}
    {selections : List Selection}
    (h : (Selection.inline head selections).isIncluded
      self.bindings = true)
    (others : List Selection) :
    self.nodesAll [.inline head others] =
      if self.applies head then
        self.nodesAll others
      else
        [] := by
  have hOthers :
      (Selection.inline head others).isIncluded self.bindings =
        true := h
  rw [nodesAll, nodesOne, hOthers, Bool.true_and, nodesAll,
    List.append_nil]

/- The fields of an inline fragment in place of a spread. -/
theorem nodesAll_inlined
    (self : Collector)
    {head : FragmentSpread}
    (h : (Selection.spread head).isIncluded self.bindings = true)
    (fragment : Fragment)
    (selections : List Selection) :
    self.nodesAll
        [Normaliser.inlined head fragment selections] =
      if self.schema.fragmentApplies self.object
          fragment.condition then
        self.nodesAll selections
      else
        [] := by
  have hInline :
      (Selection.inline
        ⟨head.position, some fragment.condition,
          head.annotations⟩ []).isIncluded self.bindings =
        true := h
  exact self.nodesAll_inline hInline selections

/- A spread gathers the fields of its fragment. -/
theorem collectSpread_gathers
    (self : Collector)
    {head : FragmentSpread}
    {done : Collected}
    {met : List FieldNode}
    (hEnters : self.Enters enter entered [head.name])
    (h : self.Gathered entered done met) :
    self.Gathered entered
      (self.collectOne enter (.spread head) done)
      (met ++ self.nodesAll
        (self.normaliser.one self.normaliser.body
          (.spread head))) := by
  rcases hEnters head.name (List.mem_singleton_self _) with
    ⟨hNew, hEnter⟩
  rw [collectOne, Normaliser.one, normaliser_bindings,
    normaliser_document]
  by_cases hIncluded :
      (Selection.spread head).isIncluded self.bindings = true
  case neg => simpa [hIncluded, nodesAll] using h
  by_cases hVisited : head.name ∈ done.visited
  case pos =>
    -- the fields of the fragment were met when it was visited
    rw [if_pos (by simp [hVisited]), if_pos hIncluded]
    refine h.append_subset ?_
    cases hFound : self.document.fragment? head.name with
    | none => simp [nodesAll]
    | some fragment =>
        rw [self.nodesAll_inlined hIncluded]
        split
        · next hApplies =>
            exact h.visited _ hVisited hNew _ hFound hApplies
        · exact List.nil_subset _
  case neg =>
    rw [if_neg (by simp [hIncluded, hVisited]), if_pos hIncluded]
    have hVisit := h.visit head.name
    cases hFound : self.document.fragment? head.name with
    | none =>
        rw [nodesAll, List.append_nil]
        exact hVisit.leave (by simp [hFound])
    | some fragment =>
        simp only [self.nodesAll_inlined hIncluded]
        split
        · next hApplies =>
            refine (hEnter fragment hFound _ _ hVisit).leave ?_
            intro found hSame _
            cases hFound.symm.trans hSame
            exact List.subset_append_right _ _
        · next hApplies =>
            rw [List.append_nil]
            refine hVisit.leave ?_
            intro found hSame hFits
            cases hFound.symm.trans hSame
            exact absurd hFits hApplies

mutual

theorem collectOne_gathers
    (self : Collector)
    (hAcyclic : self.document.Acyclic) :
    (selection : Selection) → (done : Collected) →
      (met : List FieldNode) →
      self.Enters enter entered selection.spreads →
      self.Gathered entered done met →
        self.Gathered entered
          (self.collectOne enter selection done)
          (met ++ self.nodesAll
            (self.normaliser.one self.normaliser.body selection))
| .field head selections, done, met, _, h => by
    rw [collectOne, Normaliser.one, normaliser_bindings,
      ← self.normaliser.selections_eq hAcyclic]
    split
    · next hIncluded =>
        rw [self.nodesAll_field hIncluded]
        exact h.addField ⟨head, selections⟩
    · simpa [nodesAll] using h
| .spread _, _, _, hEnters, h =>
    self.collectSpread_gathers hEnters h
| .inline head selections, done, met, hEnters, h => by
    have hAll :=
      collectAll_gathers self hAcyclic selections done met
        hEnters h
    rw [collectOne, Normaliser.one, normaliser_bindings]
    change self.Gathered entered
      (if _ && self.applies head then _ else _) _
    by_cases hIncluded :
        (Selection.inline head selections).isIncluded
          self.bindings = true
    · rw [hIncluded, Bool.true_and, if_pos rfl,
        self.nodesAll_inline hIncluded]
      split
      · exact hAll
      · simpa using h
    · simpa [hIncluded, nodesAll] using h

theorem collectAll_gathers
    (self : Collector)
    (hAcyclic : self.document.Acyclic) :
    (selections : List Selection) → (done : Collected) →
      (met : List FieldNode) →
      self.Enters enter entered
        (Selection.spreadsAll selections) →
      self.Gathered entered done met →
        self.Gathered entered
          (self.collectAll enter selections done)
          (met ++ self.nodesAll
            (self.normaliser.all self.normaliser.body
              selections))
| [], _, _, _, h => by
    rw [collectAll, Normaliser.all, nodesAll, List.append_nil]
    exact h
| selection :: rest, done, met, hEnters, h => by
    have hFirst :=
      collectOne_gathers self hAcyclic selection done met
        (fun name hName =>
          hEnters name (List.mem_append_left _ hName)) h
    have hRest :=
      collectAll_gathers self hAcyclic rest _ _
        (fun name hName =>
          hEnters name (List.mem_append_right _ hName)) hFirst
    rw [collectAll, Normaliser.all, nodesAll_append,
      ← List.append_assoc]
    exact hRest

end

/-
  Collection gathers the fields of the normal form, where the
  depth and a chain of fragments that are being entered reach
  the number of fragments.
-/
theorem collectWithin_gathers
    (self : Collector)
    (hAcyclic : self.document.Acyclic)
    (depth : Nat)
    {entered : List String}
    {selections : List Selection}
    {done : Collected}
    {met : List FieldNode}
    (hChain : self.document.Chain entered selections)
    (hDepth : self.document.fragments.length ≤
      depth + entered.length)
    (h : self.Gathered entered done met) :
    self.Gathered entered
      (self.collectWithin depth selections done)
      (met ++ self.nodesAll
        (self.normaliser.selections selections)) := by
  induction depth generalizing entered selections done met with
  | zero =>
      rw [collectWithin, self.normaliser.selections_eq hAcyclic]
      refine self.collectAll_gathers hAcyclic _ _ _ ?_ h
      intro name hName
      refine ⟨hChain.not_mem hAcyclic hName, ?_⟩
      intro fragment hFound
      have hLength := hChain.length_lt hAcyclic hName hFound
      omega
  | succ depth ih =>
      rw [collectWithin, self.normaliser.selections_eq hAcyclic]
      refine self.collectAll_gathers hAcyclic _ _ _ ?_ h
      intro name hName
      refine ⟨hChain.not_mem hAcyclic hName, ?_⟩
      intro fragment hFound done met h
      refine ih (hChain.enter hAcyclic hName hFound) ?_ h
      rw [List.length_cons]
      omega

/-
  What is collected from selections are the fields of their
  normal form, less some that are met again.
-/
theorem exists_repeats_collect
    (self : Collector)
    (hAcyclic : self.document.Acyclic)
    (selections : List Selection) :
    ∃ nodes, self.collect selections = FieldGroup.ofNodes nodes ∧
      Repeats (nodes.map self.normaliser.node)
        (self.nodesAll
          (self.normaliser.selections selections)) := by
  have h :=
    self.collectWithin_gathers hAcyclic
      self.document.fragments.length (.nil selections)
      (Nat.le_add_right _ _) (.nil self [])
  exact h.groups

/-
  Selections without spreads that repeat the fields of a normal
  form give the same groups of fields, in the same order.
-/
theorem forall₂_collect
    (self : Collector)
    (hAcyclic : self.document.Acyclic)
    (document : ExecutableDocument)
    {selections others : List Selection}
    (hFree : Selection.spreadsAll others = [])
    (hRepeats : Repeats
      (self.nodesAll (self.normaliser.selections selections))
      (self.nodesAll others)) :
    List.Forall₂ (FieldGroup.Restates self.normaliser.node)
      (self.collect selections)
      (collect { self with document := document } others) := by
  rcases self.exists_repeats_collect hAcyclic selections with
    ⟨nodes, hNodes, hMet⟩
  rw [hNodes, self.collect_of_free document hFree]
  exact FieldGroup.forall₂_ofNodes (fun _ => rfl)
    (hMet.trans hRepeats)

/-
  Selections and their normal form give the same groups of
  fields: to enter a fragment once loses nothing.
-/
theorem forall₂_collect_selections
    (self : Collector)
    (hAcyclic : self.document.Acyclic)
    (document : ExecutableDocument)
    (selections : List Selection) :
    List.Forall₂ (FieldGroup.Restates self.normaliser.node)
      (self.collect selections)
      (collect { self with document := document }
        (self.normaliser.selections selections)) :=
  self.forall₂_collect hAcyclic document
    (self.normaliser.spreadsAll_selections selections) (.refl _)

end Collector

end GraphQL
