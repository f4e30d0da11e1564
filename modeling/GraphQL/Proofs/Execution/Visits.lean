import Mathlib.Data.Finset.Card
import GraphQL.Proofs.Execution.Normalisation

/-
  Fragments that collection meets.

  Within a selection set no fragment is entered twice. However
  fragments spread each other, collection thus needs no more
  depth than there are fragments: what it would do deeper down
  makes no difference.

  Key definitions include:
    * `Collector.collectUntil`: collection with a last resort
    * `Collector.unvisited`

  Main declarations:
    * `Collector.collectUntil_agrees`
    * `Collector.collect_eq_collectUntil`
-/

------------------------------------------------------------
-- Visited Fragments
------------------------------------------------------------

namespace GraphQL

namespace Collector

/-
  Collect, entering fragments to some depth, and do something
  else wherever a fragment is met that is deeper.
-/
def collectUntil
    (self : Collector)
    (deeper : Fragment → Collected → Collected) :
    (depth : Nat) → List Selection → Collected → Collected
| 0, selections, done => collectAll self deeper selections done
| depth + 1, selections, done =>
    collectAll self
      (fun fragment done =>
        collectUntil self deeper depth fragment.selections done)
      selections done

/- The number of names of fragments that are not yet met. -/
def unvisited (self : Collector) (done : Collected) : Nat :=
  ((self.document.fragments.map Fragment.name).toFinset \
    done.visited.toFinset).card

variable {self : Collector} {done : Collected}
variable {budget : Nat}
variable {enter other : Fragment → Collected → Collected}

/- There are no more names to meet than there are fragments. -/
theorem unvisited_le (self : Collector) (done : Collected) :
    self.unvisited done ≤ self.document.fragments.length := by
  unfold unvisited
  refine (Finset.card_le_card Finset.sdiff_subset).trans ?_
  refine (List.toFinset_card_le _).trans ?_
  rw [List.length_map]

/- Fields are no fragments. -/
theorem unvisited_addField (node : FieldNode) :
    self.unvisited (done.addField node) =
      self.unvisited done :=
  rfl

/- A name that is met is not met again. -/
theorem unvisited_visit (name : String) :
    self.unvisited
        { done with visited := name :: done.visited } ≤
      self.unvisited done := by
  unfold unvisited
  refine Finset.card_le_card (Finset.sdiff_subset_sdiff ?_ ?_)
  · exact Finset.Subset.refl _
  · simp

/- The name of a fragment is one less that is not yet met. -/
theorem unvisited_enter
    {name : String}
    {fragment : Fragment}
    (hFragment : self.document.fragment? name = some fragment)
    (hNew : name ∉ done.visited) :
    self.unvisited
        { done with visited := name :: done.visited } <
      self.unvisited done := by
  rcases ExecutableDocument.of_fragment?_eq_some hFragment with
    ⟨hMem, hName⟩
  unfold unvisited
  rw [List.toFinset_cons, Finset.sdiff_insert]
  refine Finset.card_erase_lt_of_mem ?_
  simp only [Finset.mem_sdiff, List.mem_toFinset, List.mem_map]
  exact ⟨⟨fragment, hMem, hName⟩, hNew⟩

/-
  Two ways to enter fragments agree while few enough names are
  not yet met, and do not forget a name.
-/
def Agree
    (self : Collector)
    (budget : Nat)
    (enter other : Fragment → Collected → Collected) : Prop :=
  ∀ fragment done, self.unvisited done < budget →
    enter fragment done = other fragment done ∧
      self.unvisited (enter fragment done) ≤
        self.unvisited done

mutual

theorem collectOne_agrees
    (hAgree : self.Agree budget enter other) :
    (selection : Selection) → (done : Collected) →
      self.unvisited done ≤ budget →
        self.collectOne enter selection done =
            self.collectOne other selection done ∧
          self.unvisited (self.collectOne enter selection done) ≤
            self.unvisited done
| .field head selections, done, _ => by
    rw [collectOne, collectOne]
    refine ⟨rfl, ?_⟩
    split
    · exact Nat.le_of_eq (unvisited_addField _)
    · exact Nat.le_refl _
| .spread head, done, hBudget => by
    rw [collectOne, collectOne]
    split
    · exact ⟨rfl, Nat.le_refl _⟩
    · next hSpread =>
        have hNew : head.name ∉ done.visited := by
          simp only [Bool.or_eq_true, not_or] at hSpread
          simpa using hSpread.2
        have hVisit : self.unvisited
            { done with visited := head.name :: done.visited } ≤
              self.unvisited done :=
          unvisited_visit head.name
        split
        · exact ⟨rfl, hVisit⟩
        · next fragment hFragment =>
            split
            · have hLess := unvisited_enter hFragment hNew
              rcases hAgree fragment _
                (Nat.lt_of_lt_of_le hLess hBudget) with
                ⟨hSame, hMet⟩
              exact ⟨hSame, hMet.trans hVisit⟩
            · exact ⟨rfl, hVisit⟩
| .inline head selections, done, hBudget => by
    have hAll :=
      collectAll_agrees hAgree selections done hBudget
    rw [collectOne, collectOne]
    split <;> split
    · exact hAll
    · exact ⟨rfl, Nat.le_refl _⟩
    · exact hAll
    · exact ⟨rfl, Nat.le_refl _⟩

theorem collectAll_agrees
    (hAgree : self.Agree budget enter other) :
    (selections : List Selection) → (done : Collected) →
      self.unvisited done ≤ budget →
        self.collectAll enter selections done =
            self.collectAll other selections done ∧
          self.unvisited (self.collectAll enter selections done) ≤
            self.unvisited done
| [], _, _ => ⟨rfl, Nat.le_refl _⟩
| selection :: rest, done, hBudget => by
    rcases collectOne_agrees hAgree selection done hBudget with
      ⟨hFirst, hMet⟩
    rcases collectAll_agrees hAgree rest _
      (hMet.trans hBudget) with ⟨hRest, hLast⟩
    rw [collectAll, collectAll]
    exact ⟨hFirst ▸ hRest, hLast.trans hMet⟩

end

/-
  With a depth for every name that is not yet met, no fragment
  is met deeper: what would be done there makes no difference.
-/
theorem collectUntil_agrees
    (deeper deeper' : Fragment → Collected → Collected)
    {depth depth' : Nat}
    (selections : List Selection)
    (done : Collected)
    (hDepth : self.unvisited done ≤ depth)
    (hDepth' : self.unvisited done ≤ depth') :
    self.collectUntil deeper depth selections done =
        self.collectUntil deeper' depth' selections done ∧
      self.unvisited
          (self.collectUntil deeper depth selections done) ≤
        self.unvisited done := by
  induction depth generalizing depth' selections done with
  | zero =>
      have hNone : ∀ other, self.Agree (self.unvisited done)
          deeper other := by
        intro other fragment next hLess
        omega
      cases depth' with
      | zero =>
          exact collectAll_agrees (hNone _) _ _ (Nat.le_refl _)
      | succ depth' =>
          exact collectAll_agrees (hNone _) _ _ (Nat.le_refl _)
  | succ depth ih =>
      cases depth' with
      | zero =>
          refine collectAll_agrees ?_ _ _ (Nat.le_refl _)
          intro fragment next hLess
          omega
      | succ depth' =>
          refine collectAll_agrees ?_ _ _ (Nat.le_refl _)
          intro fragment next hLess
          exact ih fragment.selections next (by omega) (by omega)

theorem collectWithin_eq_collectUntil
    (self : Collector)
    (depth : Nat)
    (selections : List Selection)
    (done : Collected) :
    self.collectWithin depth selections done =
      self.collectUntil (fun _ done => done) depth selections
        done := by
  induction depth generalizing selections done with
  | zero => rfl
  | succ depth ih =>
      rw [collectWithin, collectUntil]
      simp only [ih]

/- As many fragments as there are is depth enough. -/
theorem collect_eq_collectUntil
    (self : Collector)
    (deeper : Fragment → Collected → Collected)
    {depth : Nat}
    (hDepth : self.document.fragments.length ≤ depth)
    (selections : List Selection) :
    self.collect selections =
      (self.collectUntil deeper depth selections
        ⟨[], []⟩).groups := by
  have hStart := self.unvisited_le ⟨[], []⟩
  unfold collect
  rw [collectWithin_eq_collectUntil]
  exact congrArg Collected.groups
    (collectUntil_agrees _ _ _ _ hStart (hStart.trans hDepth)).1

end Collector

end GraphQL
