import Mathlib.Data.List.Perm.Subperm
import GraphQL.Proofs.Schema.Closed

/-
  The search for cycles of input objects.

  A cycle that is found consists of names each of which
  requires another one of them. A search that finds none has
  found none behind any required field either, and it never
  runs out of depth: the names that it visits are distinct
  names of the graph.

  Key definitions include:
    * `TypeGraph.Requires`, `TypeGraph.Endless`
    * `TypeGraph.Searched`: a search that found nothing

  Main declarations:
    * `TypeGraph.endless_of_inputCycle`
    * `TypeGraph.Searched.next`
    * `TypeGraph.inputCycle_mem_errors_iff`
-/

------------------------------------------------------------
-- Required Names
------------------------------------------------------------

namespace GraphQL

open InputObjectType (required? cyclesFrom)

/- A type is required by a field if the field names it alone. -/
theorem InputObjectType.required?_eq_some_iff
    {ref : TypeRef}
    {target : String} :
    required? ref = some target ↔
      ∃ location, ref = .named target false location := by
  unfold required?
  split
  · next name location =>
      constructor
      · rintro ⟨⟩
        exact ⟨location, rfl⟩
      · rintro ⟨_, ⟨⟩⟩
        rfl
  · next hOther =>
      constructor
      · intro h
        cases h
      · rintro ⟨location, hRef⟩
        exact absurd hRef (hOther target location)

namespace TypeGraph

/- A name is that of an input object. -/
def HasInputObject
    (graph : TypeGraph)
    (name : String)
    (type : InputObjectType) : Prop :=
  graph.lookup name = some (.defined (.inputObject type))

/- Every value of an input object holds one of another type. -/
def Requires
    (graph : TypeGraph)
    (name target : String) : Prop :=
  ∃ type, graph.HasInputObject name type ∧
    ∃ entry ∈ type.fields,
      required? entry.2.type = some target

/- Each of the names requires one of them. -/
def Endless (graph : TypeGraph) (names : List String) : Prop :=
  ∀ name ∈ names, ∃ target ∈ names, graph.Requires name target

variable {graph : TypeGraph}

------------------------------------------------------------
-- Cycles That Are Found
------------------------------------------------------------

/-
  The names on the way to a cycle, each of which requires the
  one before it, and one of which the last one requires.
-/
theorem endless_of_mem_cyclesFrom
    {depth : Nat}
    {name : String}
    {type : InputObjectType}
    {path above : List String}
    {error : TypeError}
    (hName : graph.HasInputObject name type)
    (hAbove : ∀ other ∈ above, ∃ target ∈ name :: above,
      graph.Requires other target)
    (hError : error ∈ cyclesFrom graph depth name type.fields
      path (name :: above)) :
    ∃ names, name :: above ⊆ names ∧ graph.Endless names := by
  induction depth generalizing name type path above with
  | zero => simp [cyclesFrom] at hError
  | succ depth ih =>
      simp only [cyclesFrom, List.mem_flatMap] at hError
      rcases hError with ⟨⟨key, field⟩, hField, hError⟩
      split at hError
      · simp at hError
      · next target hTarget =>
          have hRequires : graph.Requires name target :=
            ⟨type, hName, (key, field), hField, hTarget⟩
          split at hError
          · next hVisited =>
              refine ⟨name :: above, List.Subset.refl _, ?_⟩
              intro other hOther
              rcases List.mem_cons.1 hOther with rfl | hOther
              · exact ⟨target, by simpa using hVisited, hRequires⟩
              · exact hAbove other hOther
          · split at hError
            · next next hNext =>
                have hChain : ∀ other ∈ name :: above,
                    ∃ last ∈ target :: name :: above,
                      graph.Requires other last := by
                  intro other hOther
                  rcases List.mem_cons.1 hOther with rfl | hOther
                  · exact ⟨target, List.mem_cons_self, hRequires⟩
                  · rcases hAbove other hOther with
                      ⟨last, hLast, hOther⟩
                    exact
                      ⟨last, List.mem_cons_of_mem _ hLast, hOther⟩
                rcases ih hNext hChain hError with
                  ⟨names, hNames, hEndless⟩
                have hLonger : name :: above ⊆ names :=
                  List.Subset.trans (List.subset_cons_self _ _)
                    hNames
                exact ⟨names, hLonger, hEndless⟩
            · simp at hError

------------------------------------------------------------
-- Cycles That Are Not Found
------------------------------------------------------------

/-
  No cycle was found behind a name. The names visited before
  are distinct, and the depth suffices for all others.
-/
def Searched
    (graph : TypeGraph)
    (depth : Nat)
    (visiting : List String)
    (name : String)
    (type : InputObjectType) : Prop :=
  visiting.Nodup ∧ visiting ⊆ graph.names ∧
    depth + visiting.length = graph.size + 2 ∧
    ∃ path,
      cyclesFrom graph depth name type.fields path visiting = []

/- A search for cycles has some depth left. -/
theorem Searched.not_zero
    {visiting : List String}
    {name : String}
    {type : InputObjectType} :
    ¬graph.Searched 0 visiting name type := by
  rintro ⟨hNodup, hNames, hLength, -⟩
  have hShort : visiting.length ≤ graph.names.length :=
    (hNodup.subperm hNames).length_le
  simp only [names, List.length_map] at hShort
  simp only [size] at hLength
  omega

/- A search for cycles goes on behind every required field. -/
theorem Searched.next
    {depth : Nat}
    {visiting : List String}
    {name target : String}
    {type next : InputObjectType}
    (h : graph.Searched (depth + 1) visiting name type)
    {entry : String × InputValue}
    (hEntry : entry ∈ type.fields)
    (hTarget : required? entry.2.type = some target)
    (hNext : graph.HasInputObject target next) :
    graph.Searched depth (target :: visiting) target next := by
  rcases h with ⟨hNodup, hNames, hLength, path, hNone⟩
  simp only [cyclesFrom, List.flatMap_eq_nil_iff] at hNone
  have hField := hNone entry hEntry
  simp only [hTarget] at hField
  split at hField
  · exact absurd hField (by simp)
  · next hNew =>
      have hMem : target ∈ graph.names := by
        have hType := List.mem_map_of_mem
          (f := NamedType.name) (mem_of_lookup hNext)
        rwa [name_of_lookup hNext] at hType
      refine ⟨?_, List.cons_subset.2 ⟨hMem, hNames⟩, ?_,
        path ++ [name ++ "." ++ entry.1], ?_⟩
      · exact List.nodup_cons.2 ⟨by simpa using hNew, hNodup⟩
      · simp only [List.length_cons]
        omega
      · rw [HasInputObject] at hNext
        simpa only [hNext] using hField

/- The search from a type that has no cycle. -/
theorem searched_of_cycleErrors_eq_nil
    {type : InputObjectType}
    (hType : .defined (.inputObject type) ∈ graph.types)
    (h : type.cycleErrors graph = []) :
    graph.Searched (graph.size + 1) [type.name] type.name
      type := by
  have hName : type.name ∈ graph.names :=
    List.mem_map_of_mem (f := NamedType.name) hType
  refine ⟨by simp, ?_, rfl, [], h⟩
  simpa using hName

------------------------------------------------------------
-- Reports
------------------------------------------------------------

/- No cycle of input objects is among the problems. -/
def CycleFree (errors : List TypeError) : Prop :=
  ∀ path, .inputCycle path ∉ errors

theorem cycleFree_nil : CycleFree [] := by
  simp [CycleFree]

theorem cycleFree_append
    {errors more : List TypeError}
    (hErrors : CycleFree errors)
    (hMore : CycleFree more) : CycleFree (errors ++ more) := by
  intro path hPath
  rcases List.mem_append.1 hPath with h | h
  · exact hErrors path h
  · exact hMore path h

theorem cycleFree_flatMap
    {α : Type}
    {items : List α}
    {errors : α → List TypeError}
    (h : ∀ item ∈ items, CycleFree (errors item)) :
    CycleFree (items.flatMap errors) := by
  intro path hPath
  rcases List.mem_flatMap.1 hPath with ⟨item, hItem, hMem⟩
  exact h item hItem path hMem

/- References are of the wrong kind or undefined. -/
theorem cycleFree_referenceErrors
    {ref : TypeRef}
    {problem? : NamedType → Option TypeError}
    (h : ∀ type path, problem? type ≠ some (.inputCycle path)) :
    CycleFree (graph.referenceErrors ref problem?) := by
  intro path hPath
  unfold referenceErrors at hPath
  split at hPath
  · next type _ => exact h type path (by simpa using hPath)
  · simp at hPath

theorem cycleFree_inputFieldErrors
    (parent name : String)
    (field : InputValue) :
    CycleFree (graph.inputFieldErrors parent name field) := by
  apply cycleFree_referenceErrors
  intro type path
  split <;> simp

theorem cycleFree_argumentErrors
    (name : String)
    (argument : InputValue) :
    CycleFree (graph.argumentErrors name argument) := by
  apply cycleFree_referenceErrors
  intro type path
  split <;> simp

theorem cycleFree_fieldErrors
    (parent name : String)
    (field : OutputField) :
    CycleFree (graph.fieldErrors parent name field) := by
  unfold fieldErrors
  apply cycleFree_append
  · apply cycleFree_referenceErrors
    intro type path
    split <;> simp
  · apply cycleFree_flatMap
    intro entry _
    exact cycleFree_argumentErrors entry.1 entry.2

end TypeGraph

open TypeGraph (CycleFree cycleFree_nil cycleFree_append
  cycleFree_flatMap)

namespace Implementor

variable {graph : TypeGraph} {self : Implementor}

theorem cycleFree_shapeErrors (interface : InterfaceType) :
    CycleFree (self.shapeErrors graph interface) := by
  unfold shapeErrors
  apply cycleFree_flatMap
  rintro ⟨name, expected⟩ _ path hPath
  dsimp only at hPath
  split at hPath
  · next found _ =>
      simp only [fieldErrors, argumentErrors,
        extraArgumentErrors, List.mem_append,
        List.mem_filterMap] at hPath
      rcases hPath with (⟨entry, _, h⟩ | ⟨entry, _, h⟩) | h
      · split at h
        · simp at h
        · split at h <;> simp at h
      · split at h <;> simp at h
      · split at h <;> simp at h
  · simp at hPath

/- Names are checked one after another. -/
theorem cycleFree_checkEach
    {check : InterfaceType → List String →
      List TypeError × List String}
    (hCheck : ∀ interface verified,
      CycleFree (check interface verified).1)
    (names verified : List String) :
    CycleFree
      (self.checkEach graph check names verified).1 := by
  induction names generalizing verified with
  | nil => exact cycleFree_nil
  | cons name rest ih =>
      unfold checkEach
      split
      · exact ih verified
      · refine cycleFree_append ?_ (ih _)
        split
        · exact hCheck _ _
        · simp [CycleFree]
        · simp [CycleFree]

theorem cycleFree_checkDeclared
    (depth : Nat)
    (declared path verified : List String) :
    CycleFree
      (self.checkDeclared graph depth declared path
        verified).1 := by
  induction depth generalizing declared path verified with
  | zero => exact cycleFree_nil
  | succ depth ih =>
      unfold checkDeclared
      apply cycleFree_checkEach
      intro interface verified
      refine cycleFree_append (cycleFree_append ?_ ?_) ?_
      · simp [CycleFree, missingErrors]
      · exact ih _ _ _
      · exact cycleFree_shapeErrors interface

end Implementor

namespace TypeGraph

variable {graph : TypeGraph}

theorem cycleFree_implementorErrors (self : Implementor) :
    CycleFree (graph.implementorErrors self) := by
  unfold implementorErrors
  apply cycleFree_append
  · exact Implementor.cycleFree_checkDeclared _ _ _ _
  · apply cycleFree_flatMap
    intro entry _
    exact cycleFree_fieldErrors self.name entry.1 entry.2

/- Cycles are reported for the input objects they start at. -/
theorem inputCycle_mem_errors_iff {path : List String} :
    .inputCycle path ∈ graph.errors ↔
      ∃ type, .defined (.inputObject type) ∈ graph.types ∧
        .inputCycle path ∈ type.cycleErrors graph := by
  unfold errors
  rw [List.mem_flatMap]
  constructor
  · rintro ⟨type, hType, hPath⟩
    unfold typeErrors at hPath
    split at hPath
    · next type =>
        refine ⟨type, hType, ?_⟩
        rcases List.mem_append.1 hPath with hFields | hCycle
        · refine absurd hFields (cycleFree_flatMap ?_ path)
          intro entry _
          exact cycleFree_inputFieldErrors _ entry.1 entry.2
        · exact hCycle
    · next union =>
        rcases List.mem_filterMap.1 hPath with ⟨name, _, hName⟩
        unfold memberError? at hName
        split at hName <;> simp at hName
    · split at hPath
      · next self _ =>
          exact absurd hPath (cycleFree_implementorErrors self path)
      · simp at hPath
    · simp at hPath
  · rintro ⟨type, hType, hPath⟩
    exact ⟨_, hType, List.mem_append_right _ hPath⟩

/- A cycle that is reported starts at names without end. -/
theorem endless_of_inputCycle
    {type : InputObjectType}
    {path : List String}
    (hType : .defined (.inputObject type) ∈ graph.types)
    (h : .inputCycle path ∈ type.cycleErrors graph) :
    ∃ names, type.name ∈ names ∧ graph.Endless names := by
  have hName : graph.HasInputObject type.name type :=
    lookup_of_mem hType
  rcases endless_of_mem_cyclesFrom hName (by simp) h with
    ⟨names, hNames, hEndless⟩
  exact ⟨names, hNames List.mem_cons_self, hEndless⟩

/- All that a search for cycles reports is cycles. -/
theorem exists_inputCycle_of_mem_cyclesFrom
    {depth : Nat}
    {name : String}
    {fields : Entries InputValue}
    {path visiting : List String}
    {error : TypeError}
    (h : error ∈
      cyclesFrom graph depth name fields path visiting) :
    ∃ cycle, error = .inputCycle cycle := by
  induction depth generalizing name fields path visiting with
  | zero => simp [cyclesFrom] at h
  | succ depth ih =>
      simp only [cyclesFrom, List.mem_flatMap] at h
      rcases h with ⟨⟨key, field⟩, _, h⟩
      split at h
      · simp at h
      · split at h
        · exact ⟨_, List.mem_singleton.1 h⟩
        · split at h
          · exact ih h
          · simp at h

end TypeGraph

end GraphQL
