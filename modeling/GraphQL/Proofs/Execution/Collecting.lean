import GraphQL.Proofs.Execution.Gathering
import GraphQL.Proofs.Execution.Visits

/-
  Runs of collection.

  Collection passes through selections with the names of the
  fragments that it has met. What it collects from selections
  that follow each other is what it collects from each of them
  by itself, less fields of fragments that are met again. All
  of these were collected before.

  Key definitions include:
    * `Collector.Collects`: what is collected, and what is met
    * `Collector.Covers`, `Collector.Closed`
    * `Thins`: a list without some of its members

  Main declarations:
    * `Collector.exists_collects`
    * `Collector.Collects.covers`, `Collector.Collects.thins`
    * `Collector.Collects.repeats_append`
-/

------------------------------------------------------------
-- Lists without Some Members
------------------------------------------------------------

namespace GraphQL

/- The first list is the second without some that were met. -/
inductive Thins {α : Type} (met : List α) :
    List α → List α → Prop where
  | nil : Thins met [] []
  | keep {xs ys : List α} (a : α) :
      Thins met xs ys → Thins met (a :: xs) (a :: ys)
  | drop {xs ys : List α} {a : α} :
      a ∈ met → Thins met xs ys → Thins met xs (a :: ys)

namespace Thins

variable {α : Type} {met xs ys zs ws : List α}

theorem refl (xs : List α) : Thins met xs xs := by
  induction xs with
  | nil => exact .nil
  | cons a xs ih => exact .keep a ih

theorem append
    (h : Thins met xs ys)
    (hNext : Thins met zs ws) :
    Thins met (xs ++ zs) (ys ++ ws) := by
  induction h with
  | nil => exact hNext
  | keep a _ ih => exact .keep a ih
  | drop hMet _ ih => exact .drop hMet ih

/- What was met may be missing altogether. -/
theorem of_subset (h : ys ⊆ met) : Thins met [] ys := by
  induction ys with
  | nil => exact .nil
  | cons a ys ih =>
      rw [List.cons_subset] at h
      exact .drop h.1 (ih h.2)

/- After what was met, members that are missing are repeats. -/
theorem repeats
    (h : Thins met xs ys)
    (hMet : met ⊆ zs) : Repeats (zs ++ xs) (zs ++ ys) := by
  induction h generalizing zs with
  | nil => exact .refl _
  | @keep xs ys a _ ih =>
      have hRest := ih (List.subset_append_of_subset_left [a] hMet)
      simpa using hRest
  | @drop xs ys a hMem _ ih =>
      have hAgain : Repeats zs (zs ++ [a]) :=
        .again (.refl zs) (hMet hMem)
      have hRest := ih (List.subset_append_of_subset_left [a] hMet)
      simpa using (hAgain.append (.refl xs)).trans hRest

end Thins

------------------------------------------------------------
-- Runs
------------------------------------------------------------

namespace Collector

/- The field that a selection is, if it is included. -/
def own (self : Collector) : Selection → List FieldNode
| .field head selections =>
    if (Selection.field head selections).isIncluded
        self.bindings then
      [⟨head, selections⟩]
    else
      []
| _ => []

/- The selections in an inline fragment, if it applies. -/
def inner (self : Collector) : Selection → List Selection
| .inline head selections =>
    if (Selection.inline head selections).isIncluded
        self.bindings && self.applies head then
      selections
    else
      []
| _ => []

/- The name that a selection spreads, if it is included. -/
def named (self : Collector) : Selection → List String
| .spread head =>
    if (Selection.spread head).isIncluded self.bindings then
      [head.name]
    else
      []
| _ => []

/- The selections of the fragment of a name, if it applies. -/
def body (self : Collector) (name : String) : List Selection :=
  match self.document.fragment? name with
  | some fragment =>
      if self.schema.fragmentApplies self.object
          fragment.condition then
        fragment.selections
      else
        []
  | none => []

/- The name that a selection spreads, if it is not met yet. -/
def noted
    (self : Collector)
    (visited : List String)
    (selection : Selection) : List String :=
  (self.named selection).filter fun name =>
    !visited.contains name

/- The selections that a selection stands for. -/
def opened
    (self : Collector)
    (visited : List String)
    (selection : Selection) : List Selection :=
  self.inner selection ++
    (self.noted visited selection).flatMap self.body

/-
  From selections these fields are collected in order, and with
  the names that were met before, these are met in the end.
-/
inductive Collects (self : Collector) :
    List Selection → List String → List FieldNode →
      List String → Prop where
  | nil {visited : List String} :
      Collects self [] visited [] visited
  | cons {selection : Selection} {rest : List Selection}
      {visited middle last : List String}
      {nodes more : List FieldNode} :
      Collects self (self.opened visited selection)
        (self.noted visited selection ++ visited) nodes middle →
      Collects self rest middle more last →
      Collects self (selection :: rest) visited
        (self.own selection ++ nodes ++ more) last

namespace Collects

variable {self : Collector}
variable {selections rest : List Selection}
variable {visited last other : List String}
variable {nodes others : List FieldNode}

/- Collection has one outcome. -/
theorem unique
    (h : self.Collects selections visited nodes last)
    (h' : self.Collects selections visited others other) :
    nodes = others ∧ last = other := by
  induction h generalizing others other with
  | nil =>
      cases h'
      exact ⟨rfl, rfl⟩
  | cons _ _ ihOpened ihRest =>
      cases h' with
      | cons hOpened hRest =>
          rcases ihOpened hOpened with ⟨rfl, rfl⟩
          rcases ihRest hRest with ⟨rfl, rfl⟩
          exact ⟨rfl, rfl⟩

/- Selections are collected one after the other. -/
theorem append
    (h : self.Collects selections visited nodes last)
    (hRest : self.Collects rest last others other) :
    self.Collects (selections ++ rest) visited (nodes ++ others)
      other := by
  induction h with
  | nil => exact hRest
  | cons hOpened _ _ ih =>
      rw [List.append_assoc]
      exact .cons hOpened (ih hRest)

/- No name is forgotten. -/
theorem subset
    (h : self.Collects selections visited nodes last) :
    visited ⊆ last := by
  induction h with
  | nil => exact List.Subset.refl _
  | cons _ _ ihOpened ihRest =>
      exact List.Subset.trans
        (List.subset_append_of_subset_right _
          (List.Subset.refl _))
        (List.Subset.trans ihOpened ihRest)

end Collects

------------------------------------------------------------
-- Runs of the Collector
------------------------------------------------------------

variable {self : Collector}

/- More names that are met are fewer that are not. -/
theorem unvisited_le_of_subset
    {done next : Collected}
    (h : done.visited ⊆ next.visited) :
    self.unvisited next ≤ self.unvisited done := by
  unfold unvisited
  refine Finset.card_le_card (Finset.sdiff_subset_sdiff ?_ ?_)
  · exact Finset.Subset.refl _
  · intro name hName
    rw [List.mem_toFinset] at hName ⊢
    exact h hName

/- Selections lead from what was collected to what is. -/
def Traces
    (self : Collector)
    (selections : List Selection)
    (done next : Collected) : Prop :=
  ∃ nodes,
    self.Collects selections done.visited nodes next.visited ∧
      next.groups = FieldGroup.addAll nodes done.groups

theorem Traces.unvisited_le
    {selections : List Selection}
    {done next : Collected}
    (h : self.Traces selections done next) :
    self.unvisited next ≤ self.unvisited done := by
  rcases h with ⟨nodes, hCollects, -⟩
  exact unvisited_le_of_subset hCollects.subset

theorem Traces.nil (done : Collected) : self.Traces [] done done :=
  ⟨[], .nil, rfl⟩

theorem Traces.append
    {selections rest : List Selection}
    {done middle next : Collected}
    (h : self.Traces selections done middle)
    (hRest : self.Traces rest middle next) :
    self.Traces (selections ++ rest) done next := by
  rcases h with ⟨nodes, hNodes, hMiddle⟩
  rcases hRest with ⟨more, hMore, hNext⟩
  refine ⟨_, hNodes.append hMore, ?_⟩
  rw [hNext, hMiddle]
  simp [FieldGroup.addAll]

/- A selection leads on by what it stands for. -/
theorem traces_one
    {selection : Selection}
    {done next : Collected}
    (h : self.Traces (self.opened done.visited selection)
      ⟨FieldGroup.addAll (self.own selection) done.groups,
        self.noted done.visited selection ++ done.visited⟩
      next) :
    self.Traces [selection] done next := by
  rcases h with ⟨nodes, hNodes, hNext⟩
  refine ⟨_, .cons hNodes .nil, ?_⟩
  rw [hNext]
  simp [FieldGroup.addAll]

variable {enter : Fragment → Collected → Collected}
variable {budget : Nat}

/- A spread enters its fragment if its name is not met yet. -/
theorem collectSpread_traces
    (hEnter : ∀ fragment done, self.unvisited done < budget →
      self.Traces fragment.selections done (enter fragment done))
    (head : FragmentSpread)
    {done : Collected}
    (hBudget : self.unvisited done ≤ budget) :
    self.Traces [.spread head] done
      (self.collectOne enter (.spread head) done) := by
  apply traces_one
  have hOwn : self.own (.spread head) = [] := rfl
  have hInner : self.inner (.spread head) = [] := rfl
  rw [collectOne, opened, hOwn, hInner]
  by_cases hIncluded :
      (Selection.spread head).isIncluded self.bindings = true
  case neg =>
    have hNoted : self.noted done.visited (.spread head) = [] := by
      simp [noted, named, hIncluded]
    rw [hNoted, if_pos (by simp [hIncluded])]
    exact .nil done
  by_cases hVisited : head.name ∈ done.visited
  case pos =>
    have hNoted : self.noted done.visited (.spread head) = [] := by
      simp [noted, named, hIncluded, hVisited]
    rw [hNoted, if_pos (by simp [hVisited])]
    exact .nil done
  case neg =>
    have hNoted : self.noted done.visited (.spread head) =
        [head.name] := by
      simp [noted, named, hIncluded, hVisited]
    rw [hNoted, if_neg (by simp [hIncluded, hVisited])]
    simp only [List.nil_append, List.flatMap_singleton, body]
    cases hFragment : self.document.fragment? head.name with
    | none => exact .nil _
    | some fragment =>
        dsimp only
        split
        · have hLess := unvisited_enter hFragment hVisited
          exact hEnter fragment _
            (Nat.lt_of_lt_of_le hLess hBudget)
        · exact .nil _

mutual

theorem collectOne_traces
    (hEnter : ∀ fragment done, self.unvisited done < budget →
      self.Traces fragment.selections done (enter fragment done)) :
    (selection : Selection) → (done : Collected) →
      self.unvisited done ≤ budget →
        self.Traces [selection] done
          (self.collectOne enter selection done)
| .field head selections, done, _ => by
    apply traces_one
    rw [collectOne, own]
    split
    · exact .nil _
    · exact .nil _
| .spread head, done, hBudget =>
    collectSpread_traces hEnter head hBudget
| .inline head selections, done, hBudget => by
    have hAll := collectAll_traces hEnter selections done hBudget
    apply traces_one
    have hNoted :
        self.noted done.visited (.inline head selections) = [] :=
      rfl
    rw [collectOne, opened, hNoted, inner, List.flatMap_nil,
      List.append_nil]
    change self.Traces _ done
      (if _ && self.applies head then _ else _)
    split
    · exact hAll
    · exact .nil done

theorem collectAll_traces
    (hEnter : ∀ fragment done, self.unvisited done < budget →
      self.Traces fragment.selections done (enter fragment done)) :
    (selections : List Selection) → (done : Collected) →
      self.unvisited done ≤ budget →
        self.Traces selections done
          (self.collectAll enter selections done)
| [], done, _ => .nil done
| selection :: rest, done, hBudget => by
    have hFirst := collectOne_traces hEnter selection done hBudget
    have hRest := collectAll_traces hEnter rest _
      (hFirst.unvisited_le.trans hBudget)
    rw [collectAll]
    exact hFirst.append hRest

end

/- With a depth for every name not met, collection is a run. -/
theorem collectWithin_traces
    (depth : Nat)
    (selections : List Selection)
    (done : Collected)
    (hDepth : self.unvisited done ≤ depth) :
    self.Traces selections done
      (self.collectWithin depth selections done) := by
  induction depth generalizing selections done with
  | zero =>
      refine collectAll_traces ?_ selections done hDepth
      intro fragment next hLess
      exact absurd hLess (Nat.not_lt_zero _)
  | succ depth ih =>
      refine collectAll_traces ?_ selections done hDepth
      intro fragment next hLess
      exact ih fragment.selections next (Nat.le_of_lt_succ hLess)

/- What is collected are the fields of a run. -/
theorem exists_collects
    (self : Collector)
    (selections : List Selection) :
    ∃ nodes last, self.Collects selections [] nodes last ∧
      self.collect selections = FieldGroup.ofNodes nodes := by
  rcases collectWithin_traces _ selections ⟨[], []⟩
      (self.unvisited_le _) with
    ⟨nodes, hNodes, hGroups⟩
  exact ⟨nodes, _, hNodes, hGroups⟩

------------------------------------------------------------
-- Fragments That Are Met
------------------------------------------------------------

mutual

/- The names that a selection spreads directly. -/
def namesOne (self : Collector) : Selection → List String
| .field _ _ => []
| .spread head =>
    if (Selection.spread head).isIncluded self.bindings then
      [head.name]
    else
      []
| .inline head selections =>
    if (Selection.inline head selections).isIncluded
        self.bindings && self.applies head then
      namesAll self selections
    else
      []

/- The names that selections spread directly. -/
def namesAll (self : Collector) : List Selection → List String
| [] => []
| selection :: rest =>
    namesOne self selection ++ namesAll self rest

end

theorem namesOne_eq
    (self : Collector)
    (selection : Selection) :
    self.namesOne selection =
      self.named selection ++
        self.namesAll (self.inner selection) := by
  cases selection with
  | field head selections => rfl
  | spread head => exact (List.append_nil _).symm
  | inline head selections =>
      rw [namesOne]
      change _ = self.namesAll
        (if _ && self.applies head then _ else _)
      split <;> rfl

theorem nodesOne_eq
    (self : Collector)
    (selection : Selection) :
    self.nodesOne selection =
      self.own selection ++
        self.nodesAll (self.inner selection) := by
  cases selection with
  | field head selections => exact (List.append_nil _).symm
  | spread head => rfl
  | inline head selections =>
      rw [nodesOne]
      change _ = self.nodesAll
        (if _ && self.applies head then _ else _)
      split <;> rfl

/-
  All fields of selections were collected, and all names that
  they spread were met.
-/
structure Covers
    (collector : Collector)
    (met : List FieldNode)
    (visited : List String)
    (selections : List Selection) : Prop where
  nodes : collector.nodesAll selections ⊆ met
  names : collector.namesAll selections ⊆ visited

/- So were those of the fragments that were met. -/
def Closed
    (self : Collector)
    (nodes : List FieldNode)
    (visited : List String) : Prop :=
  ∀ name ∈ visited, self.Covers nodes visited (self.body name)

/- The names that selections spread one after the other. -/
theorem namesAll_append
    (self : Collector)
    (selections rest : List Selection) :
    self.namesAll (selections ++ rest) =
      self.namesAll selections ++ self.namesAll rest := by
  induction selections with
  | nil => rfl
  | cons selection others ih =>
      rw [List.cons_append, namesAll, namesAll, ih,
        List.append_assoc]

namespace Covers

variable {selections rest : List Selection}
variable {nodes others : List FieldNode}
variable {visited more : List String}

theorem mono
    (h : self.Covers nodes visited selections)
    (hNodes : nodes ⊆ others)
    (hVisited : visited ⊆ more) :
    self.Covers others more selections :=
  ⟨List.Subset.trans h.nodes hNodes,
    List.Subset.trans h.names hVisited⟩

theorem nil : self.Covers nodes visited [] :=
  ⟨List.nil_subset _, List.nil_subset _⟩

theorem append_iff :
    self.Covers nodes visited (selections ++ rest) ↔
      self.Covers nodes visited selections ∧
        self.Covers nodes visited rest := by
  constructor
  · rintro ⟨hNodes, hNames⟩
    rw [nodesAll_append, List.append_subset] at hNodes
    rw [namesAll_append, List.append_subset] at hNames
    exact ⟨⟨hNodes.1, hNames.1⟩, ⟨hNodes.2, hNames.2⟩⟩
  · rintro ⟨hFirst, hRest⟩
    constructor
    · rw [nodesAll_append]
      exact List.append_subset.2 ⟨hFirst.nodes, hRest.nodes⟩
    · rw [namesAll_append]
      exact List.append_subset.2 ⟨hFirst.names, hRest.names⟩

theorem flatMap_iff
    {α : Type}
    {parts : List α}
    {part : α → List Selection} :
    self.Covers nodes visited (parts.flatMap part) ↔
      ∀ a ∈ parts, self.Covers nodes visited (part a) := by
  induction parts with
  | nil => simpa using nil
  | cons a parts ih =>
      rw [List.flatMap_cons, append_iff, ih,
        List.forall_mem_cons]

/- A selection is covered with what is in it. -/
theorem singleton_iff {selection : Selection} :
    self.Covers nodes visited [selection] ↔
      (self.own selection ⊆ nodes ∧
          self.named selection ⊆ visited) ∧
        self.Covers nodes visited (self.inner selection) := by
  have hNodes : self.nodesAll [selection] =
      self.own selection ++
        self.nodesAll (self.inner selection) := by
    rw [nodesAll, nodesAll, List.append_nil, nodesOne_eq]
  have hNames : self.namesAll [selection] =
      self.named selection ++
        self.namesAll (self.inner selection) := by
    rw [namesAll, namesAll, List.append_nil, namesOne_eq]
  constructor
  · rintro ⟨hAll, hEach⟩
    rw [hNodes, List.append_subset] at hAll
    rw [hNames, List.append_subset] at hEach
    exact ⟨⟨hAll.1, hEach.1⟩, ⟨hAll.2, hEach.2⟩⟩
  · rintro ⟨⟨hOwn, hNamed⟩, hInner⟩
    constructor
    · rw [hNodes]
      exact List.append_subset.2 ⟨hOwn, hInner.nodes⟩
    · rw [hNames]
      exact List.append_subset.2 ⟨hNamed, hInner.names⟩

end Covers

/- A name that is noted is spread, and was not met. -/
theorem mem_noted_iff
    {visited : List String}
    {selection : Selection}
    {name : String} :
    name ∈ self.noted visited selection ↔
      name ∈ self.named selection ∧ name ∉ visited := by
  simp [noted]

namespace Collects

variable {selections rest : List Selection}
variable {visited last : List String}
variable {nodes : List FieldNode}

/-
  A run covers its selections, and the fragments of all names
  that it met. By induction on the run: a fragment is covered
  by the run that enters it.
-/
theorem covers
    (h : self.Collects selections visited nodes last) :
    self.Covers nodes last selections ∧
      ∀ name ∈ last, name ∈ visited ∨
        self.Covers nodes last (self.body name) := by
  induction h with
  | nil => exact ⟨.nil, fun _ hName => .inl hName⟩
  | @cons selection rest visited middle last nodes more hOpened
      hRest ihOpened ihRest =>
      have hNodes : nodes ⊆
          self.own selection ++ nodes ++ more := by
        intro node hNode
        simp [hNode]
      have hMore : more ⊆
          self.own selection ++ nodes ++ more :=
        List.subset_append_right _ _
      have hOpenedCovers := ihOpened.1
      rw [opened, Covers.append_iff, Covers.flatMap_iff]
        at hOpenedCovers
      have hNoted : ∀ name ∈ self.noted visited selection,
          name ∈ last := fun name hName =>
        hRest.subset
          (hOpened.subset (List.mem_append_left _ hName))
      have hVisited : ∀ name ∈ visited, name ∈ last :=
        fun name hName => hRest.subset
          (hOpened.subset (List.mem_append_right _ hName))
      constructor
      · rw [← List.singleton_append, Covers.append_iff,
          Covers.singleton_iff]
        refine ⟨⟨⟨?_, ?_⟩, ?_⟩, ?_⟩
        · intro node hNode
          simp [hNode]
        · intro name hName
          by_cases hMet : name ∈ visited
          · exact hVisited name hMet
          · exact hNoted name (mem_noted_iff.2 ⟨hName, hMet⟩)
        · exact hOpenedCovers.1.mono hNodes hRest.subset
        · exact ihRest.1.mono hMore (List.Subset.refl _)
      · intro name hName
        rcases ihRest.2 name hName with hMiddle | hCovers
        · rcases ihOpened.2 name hMiddle with hBefore | hCovers
          · rcases List.mem_append.1 hBefore with hNew | hMet
            · exact .inr ((hOpenedCovers.2 name hNew).mono hNodes
                hRest.subset)
            · exact .inl hMet
          · exact .inr (hCovers.mono hNodes hRest.subset)
        · exact .inr (hCovers.mono hMore (List.Subset.refl _))

/- A run that starts from nothing is closed. -/
theorem closed
    (h : self.Collects selections [] nodes last) :
    self.Closed nodes last := by
  intro name hName
  rcases h.covers.2 name hName with hNone | hCovers
  · cases hNone
  · exact hCovers

variable {met : List FieldNode} {known : List String}

/- A run of what is covered stays within what is closed. -/
theorem subset_of_closed
    (hClosed : self.Closed met known)
    (hCovers : self.Covers met known selections)
    (h : self.Collects selections visited nodes last) :
    nodes ⊆ met ∧
      ∀ name ∈ last, name ∈ known ∨ name ∈ visited := by
  induction h with
  | nil => exact ⟨List.nil_subset _, fun _ hName => .inr hName⟩
  | @cons selection rest visited middle last nodes more _ _
      ihOpened ihRest =>
      rw [← List.singleton_append, Covers.append_iff,
        Covers.singleton_iff] at hCovers
      rcases hCovers with ⟨⟨⟨hOwn, hNamed⟩, hInner⟩, hRest⟩
      have hNoted : ∀ name ∈ self.noted visited selection,
          name ∈ known := fun name hName =>
        hNamed (mem_noted_iff.1 hName).1
      have hOpened :
          self.Covers met known (self.opened visited selection) := by
        rw [opened, Covers.append_iff, Covers.flatMap_iff]
        exact ⟨hInner, fun name hName =>
          hClosed name (hNoted name hName)⟩
      rcases ihOpened hOpened with ⟨hNodes, hMiddle⟩
      rcases ihRest hRest with ⟨hMore, hLast⟩
      constructor
      · exact List.append_subset.2
          ⟨List.append_subset.2 ⟨hOwn, hNodes⟩, hMore⟩
      · intro name hName
        rcases hLast name hName with hKnown | hMid
        · exact .inl hKnown
        · rcases hMiddle name hMid with hKnown | hBefore
          · exact .inl hKnown
          · rcases List.mem_append.1 hBefore with hNew | hMet
            · exact .inl (hNoted name hNew)
            · exact .inr hMet

/-
  Where more names were met, a selection stands for the same,
  or it spreads one of these names and stands for nothing.
-/
theorem noted_cases
    {more : List String}
    (hMore : ∀ name, name ∈ more ↔
      name ∈ known ∨ name ∈ visited)
    (selection : Selection) :
    self.noted more selection = self.noted visited selection ∨
      ∃ name ∈ known,
        self.own selection = [] ∧
          self.noted visited selection = [name] ∧
          self.noted more selection = [] ∧
          self.inner selection = [] := by
  cases selection with
  | field head selections => exact .inl rfl
  | inline head selections => exact .inl rfl
  | spread head =>
      by_cases hIncluded :
          (Selection.spread head).isIncluded self.bindings = true
      case neg => exact .inl (by simp [noted, named, hIncluded])
      by_cases hKnown : head.name ∈ known
      · by_cases hMet : head.name ∈ visited
        · exact .inl (by
            simp [noted, named, hIncluded, hMore, hMet])
        · refine .inr ⟨head.name, hKnown, rfl, ?_, ?_, rfl⟩
          · simp [noted, named, hIncluded, hMet]
          · simp [noted, named, hIncluded, hMore, hKnown]
      · refine .inl (List.filter_congr ?_)
        intro name hName
        have hSame : name = head.name := by
          simpa [named, hIncluded] using hName
        simp [hSame, hMore, hKnown]

/-
  Where more names were met, all of whose fields were, a run
  collects the same but for some of these. By induction on the
  run from fewer names: what it enters in addition is closed.
-/
theorem thins
    (hClosed : self.Closed met known)
    (h : self.Collects selections visited nodes last)
    {more : List String}
    (hMore : ∀ name, name ∈ more ↔
      name ∈ known ∨ name ∈ visited) :
    ∃ thinned final,
      self.Collects selections more thinned final ∧
        (∀ name, name ∈ final ↔
          name ∈ known ∨ name ∈ last) ∧
        Thins met thinned nodes := by
  induction h generalizing more with
  | nil => exact ⟨[], more, .nil, hMore, .nil⟩
  | @cons selection rest visited middle last nodes others
      hOpened hRest ihOpened ihRest =>
      rcases noted_cases hMore selection with
        hSame | ⟨name, hName, hOwn, hNoted, hNone, hInner⟩
      · have hBoth : self.opened more selection =
            self.opened visited selection := by
          rw [opened, opened, hSame]
        have hMet : ∀ name,
            name ∈ self.noted more selection ++ more ↔
              name ∈ known ∨
                name ∈ self.noted visited selection ++ visited := by
          intro name
          rw [hSame, List.mem_append, List.mem_append, hMore,
            or_left_comm]
        rcases ihOpened hMet with
          ⟨thinned, middle', hThinned, hMiddle, hThins⟩
        rcases ihRest hMiddle with
          ⟨thinned', final, hThinned', hFinal, hThins'⟩
        rw [← hBoth] at hThinned
        exact
          ⟨_, final, .cons hThinned hThinned', hFinal,
            ((Thins.refl _).append hThins).append hThins'⟩
      · -- the fragment was met: all that it adds is known
        have hEmpty : self.opened more selection = [] := by
          rw [opened, hNone, hInner]
          rfl
        have hCovers :
            self.Covers met known (self.opened visited selection) := by
          rw [opened, hNoted, hInner]
          simpa using hClosed name hName
        rcases hOpened.subset_of_closed hClosed hCovers with
          ⟨hNodes, hMiddle⟩
        have hMet : ∀ other, other ∈ more ↔
            other ∈ known ∨ other ∈ middle := by
          intro other
          rw [hMore]
          constructor
          · rintro (hKnown | hVisited)
            · exact .inl hKnown
            · exact .inr
                (hOpened.subset (List.mem_append_right _ hVisited))
          · rintro (hKnown | hMem)
            · exact .inl hKnown
            · rcases hMiddle other hMem with hKnown | hBefore
              · exact .inl hKnown
              · rw [hNoted] at hBefore
                rcases List.mem_cons.1 hBefore with rfl | hVisited
                · exact .inl hName
                · exact .inr hVisited
        rcases ihRest hMet with
          ⟨thinned, final, hThinned, hFinal, hThins⟩
        have hNothing :
            self.Collects (self.opened more selection)
              (self.noted more selection ++ more) [] more := by
          rw [hEmpty, hNone]
          exact .nil
        refine ⟨_, final, .cons hNothing hThinned, hFinal, ?_⟩
        rw [hOwn]
        exact (Thins.of_subset hNodes).append hThins

/-
  From selections that follow each other the fields of each of
  them are collected, less some that are met again.
-/
theorem repeats_append
    {others all : List FieldNode}
    {known final : List String}
    (h : self.Collects selections [] nodes last)
    (hRest : self.Collects rest [] others known)
    (hAll : self.Collects (selections ++ rest) [] all final) :
    Repeats all (nodes ++ others) := by
  have hMore : ∀ name, name ∈ last ↔ name ∈ last ∨ name ∈ [] := by
    simp
  rcases hRest.thins h.closed hMore with
    ⟨thinned, _, hThinned, -, hThins⟩
  rcases hAll.unique (h.append hThinned) with ⟨rfl, -⟩
  exact hThins.repeats (List.Subset.refl _)

end Collects

end Collector

end GraphQL
