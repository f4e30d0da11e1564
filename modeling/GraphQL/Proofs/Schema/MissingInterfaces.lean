import Mathlib.Data.List.Permutation
import GraphQL.Proofs.Schema.Implementing
import GraphQL.Proofs.Schema.InputCycles

/-
  Interfaces that are reported as missing.

  The check of a type climbs the hierarchy of the interfaces
  that it declares. Each problem that it reports comes with the
  path of declared interfaces to the one that declares what is
  missing. What is missing is looked for where the last link of
  the path is declared: in the type itself if the path is one
  interface, and else in the interface before the last.

  Key definitions include:
    * `Implementor.Leads`: paths of declared interfaces
    * `Implementor.Lacks`: what a reported problem means

  Main declarations:
    * `Implementor.lacks_of_checkDeclared`
    * `TypeGraph.lacks_of_mem_errors`
    * `Letters.declared_but_missing`
-/

------------------------------------------------------------
-- Paths
------------------------------------------------------------

namespace GraphQL

namespace Implementor

/-
  A path of interfaces from a type to a body. Each interface is
  declared by what stands before it, the first by the type.
-/
inductive Leads (graph : TypeGraph) (self : Implementor) :
    List String → FieldShape → Prop where
  | start : Leads graph self [] self.shape
  | link
      {path : List String}
      {shape : FieldShape}
      {interface : InterfaceType} :
      Leads graph self path shape →
      graph.lookup interface.name =
        some (.defined (.interface interface)) →
      interface.name ∈ shape.interfaces →
      Leads graph self (path ++ [interface.name])
        interface.shape

/-
  A path leads to an interface that declares the one that is
  missing, and what stands before it does not declare it.
-/
inductive Lacks (graph : TypeGraph) (self : Implementor) :
    List String → String → Prop where
  | behind
      {path : List String}
      {shape : FieldShape}
      {interface : InterfaceType}
      {missing : String} :
      Leads graph self path shape →
      graph.lookup interface.name =
        some (.defined (.interface interface)) →
      interface.name ∈ shape.interfaces →
      missing ∈ interface.shape.interfaces →
      missing ∉ shape.interfaces →
      Lacks graph self (path ++ [interface.name]) missing

variable {graph : TypeGraph} {self : Implementor}
variable {path : List String} {missing : String}

/- The path leads to a body that declares what is missing. -/
theorem Lacks.leads (h : self.Lacks graph path missing) :
    ∃ shape, self.Leads graph path shape ∧
      missing ∈ shape.interfaces := by
  cases h with
  | behind hLeads hLookup hLink hDeclared _ =>
      exact ⟨_, .link hLeads hLookup hLink, hDeclared⟩

/- Behind an interface of its own, the type lacks the other. -/
theorem Lacks.not_mem
    {name : String}
    (h : self.Lacks graph [name] missing) :
    missing ∉ self.shape.interfaces := by
  generalize hPath : [name] = path at h
  cases h with
  | behind hLeads _ _ _ hMissing =>
      cases hLeads with
      | start => exact hMissing
      | link _ _ _ =>
          have hLength := congrArg List.length hPath
          simp at hLength

------------------------------------------------------------
-- Reports
------------------------------------------------------------

/- A report of a missing interface that is true of a type. -/
def Reports
    (graph : TypeGraph)
    (self : Implementor)
    (error : TypeError) : Prop :=
  ∀ location type path missing,
    error = .missingInterface location type path missing →
    location = self.location ∧ type = self.name ∧
      self.Lacks graph path missing

/- Other problems say nothing of missing interfaces. -/
theorem Reports.of_ne
    {error : TypeError}
    (h : ∀ location type path missing,
      error ≠ .missingInterface location type path missing) :
    self.Reports graph error :=
  fun location type path missing hError =>
    absurd hError (h location type path missing)

/- What an interface declares is compared with a body. -/
theorem reports_of_missingErrors
    {shape : FieldShape}
    {interface : InterfaceType}
    (hLeads : self.Leads graph path shape)
    (hLookup : graph.lookup interface.name =
      some (.defined (.interface interface)))
    (hLink : interface.name ∈ shape.interfaces)
    {error : TypeError}
    (h : error ∈ self.missingErrors shape.interfaces
      (path ++ [interface.name]) interface) :
    self.Reports graph error := by
  simp only [missingErrors, List.mem_map, List.mem_filter,
    mem_sorted] at h
  rcases h with ⟨name, ⟨hDeclared, hMissing⟩, rfl⟩
  rintro _ _ _ _ ⟨⟩
  exact
    ⟨rfl, rfl,
      .behind hLeads hLookup hLink hDeclared
        (by simpa using hMissing)⟩

/- The fields of an interface have problems of their own. -/
theorem reports_of_shapeErrors
    {interface : InterfaceType}
    {error : TypeError}
    (h : error ∈ self.shapeErrors graph interface) :
    self.Reports graph error := by
  apply Reports.of_ne
  rintro location type path missing rfl
  simp only [shapeErrors, List.mem_flatMap] at h
  rcases h with ⟨⟨name, expected⟩, -, hError⟩
  simp only at hError
  split at hError
  · simp only [fieldErrors, argumentErrors,
      extraArgumentErrors, List.mem_append,
      List.mem_filterMap] at hError
    rcases hError with (⟨entry, -, hEntry⟩ | ⟨entry, -, hEntry⟩) |
      hType
    · split at hEntry
      · cases hEntry
      · split at hEntry <;> cases hEntry
    · split at hEntry <;> cases hEntry
    · split at hType <;> simp at hType
  · simp at hError

/- Names are checked one after another. -/
theorem reports_of_checkEach
    {check : InterfaceType → List String →
      List TypeError × List String}
    {names : List String}
    (hCheck : ∀ interface verified,
      interface.name ∈ names →
      graph.lookup interface.name =
        some (.defined (.interface interface)) →
      ∀ error ∈ (check interface verified).1,
        self.Reports graph error)
    {verified : List String}
    {error : TypeError}
    (h : error ∈ (checkEach graph self check names verified).1) :
    self.Reports graph error := by
  induction names generalizing verified with
  | nil => cases h
  | cons name rest ih =>
      have hRest : ∀ {verified : List String},
          error ∈ (checkEach graph self check rest verified).1 →
          self.Reports graph error :=
        fun hMem => ih
          (fun interface verified hName =>
            hCheck interface verified
              (List.mem_cons_of_mem name hName))
          hMem
      by_cases hKnown : name ∈ verified
      · rw [checkEach, if_pos (by simpa using hKnown)] at h
        exact hRest h
      · rw [checkEach_cons hKnown] at h
        rcases List.mem_append.1 h with hNow | hLater
        · unfold checkOne at hNow
          split at hNow
          · next interface hLookup =>
              have hName : interface.name = name :=
                TypeGraph.name_of_lookup hLookup
              subst hName
              exact hCheck interface _ List.mem_cons_self
                hLookup _ hNow
          · cases List.mem_singleton.1 hNow
            exact .of_ne (by simp)
          · cases List.mem_singleton.1 hNow
            exact .of_ne (by simp)
        · exact hRest hLater

/-
  The check of what stands at the end of a path reports what is
  lacking there. Each step of the check adds a link.
-/
theorem lacks_of_checkDeclared
    (depth : Nat)
    {shape : FieldShape}
    (hLeads : self.Leads graph path shape)
    {verified : List String}
    {error : TypeError}
    (h : error ∈ (checkDeclared graph self depth
      shape.interfaces path verified).1) :
    self.Reports graph error := by
  induction depth generalizing path shape verified error with
  | zero => cases h
  | succ depth ih =>
      unfold checkDeclared at h
      refine reports_of_checkEach ?_ h
      intro interface verified hName hLookup error hError
      rw [mem_sorted] at hName
      simp only [List.mem_append] at hError
      rcases hError with (hMissing | hNested) | hFields
      · exact reports_of_missingErrors hLeads hLookup hName
          hMissing
      · exact ih (.link hLeads hLookup hName) hNested
      · exact reports_of_shapeErrors hFields

end Implementor

------------------------------------------------------------
-- Graphs
------------------------------------------------------------

namespace TypeGraph

variable {graph : TypeGraph}

/- Input fields and members are no interfaces. -/
theorem others_typeErrors
    {type : NamedType}
    (h : type.implementor? = none) :
    TypeError.Others (graph.typeErrors type) := by
  unfold typeErrors
  split
  · next type =>
      refine TypeError.others_append_iff.2 ⟨?_, ?_⟩
      · rw [TypeError.others_flatMap_iff]
        intro entry _
        exact others_referenceErrors rfl
      · intro error hError
        rcases exists_inputCycle_of_mem_cyclesFrom hError with
          ⟨cycle, rfl⟩
        rfl
  · next union =>
      rw [TypeError.others_filterMap_iff]
      intro member _ error hError
      unfold memberError? at hError
      split at hError <;> cases hError <;> rfl
  · next type _ _ =>
      have hNone : type.implementor? = none := h
      rw [hNone]
      exact TypeError.others_nil
  · exact TypeError.others_nil

/- A problem with an interface is one of an implementor. -/
theorem exists_implementor_of_mem_errors
    {error : TypeError}
    (h : error ∈ graph.errors)
    (hInterface : error.isOfInterface = true) :
    ∃ self ∈ graph.implementors,
      error ∈ self.interfaceErrors graph := by
  rcases List.mem_flatMap.1 h with ⟨type, hType, hError⟩
  cases hSelf : type.implementor? with
  | none =>
      have hOther := others_typeErrors hSelf error hError
      rw [hInterface] at hOther
      cases hOther
  | some self =>
      refine
        ⟨self, List.mem_filterMap.2 ⟨type, hType, hSelf⟩, ?_⟩
      have hErrors : graph.typeErrors type =
          graph.implementorErrors self := by
        cases type with
        | builtin scalar => cases hSelf
        | defined type =>
            cases type <;> cases hSelf <;> rfl
      rw [hErrors] at hError
      rcases List.mem_append.1 hError with hOwn | hField
      · exact hOwn
      · rcases List.mem_flatMap.1 hField with
          ⟨entry, -, hField⟩
        have hOther :=
          others_fieldErrors self.name entry.1 entry.2 error hField
        rw [hInterface] at hOther
        cases hOther

/-
  A missing interface is reported for an object or interface
  type with a path of declared interfaces from that type to one
  that declares it. What is missing is not declared by the last
  but one on the way. This is the type itself if the path is one
  interface; else the type may well declare it.
-/
theorem lacks_of_mem_errors
    {location : SourceLocation}
    {type missing : String}
    {path : List String}
    (h : .missingInterface location type path missing ∈
      graph.errors) :
    ∃ self ∈ graph.implementors,
      self.name = type ∧ self.location = location ∧
        self.Lacks graph path missing ∧
        (path.length = 1 →
          missing ∉ self.shape.interfaces) := by
  rcases exists_implementor_of_mem_errors h rfl with
    ⟨self, hSelf, hError⟩
  rcases Implementor.lacks_of_checkDeclared _ .start hError _ _ _
    _ rfl with ⟨rfl, rfl, hLacks⟩
  refine ⟨self, hSelf, rfl, rfl, hLacks, fun hLength => ?_⟩
  rcases List.length_eq_one_iff.1 hLength with ⟨name, rfl⟩
  exact hLacks.not_mem

end TypeGraph

------------------------------------------------------------
-- Letters
------------------------------------------------------------

/-
  Interfaces that declare each other in turn. The first one
  leaves the last one out, while the object declares them all.
-/
namespace Letters

open Catalogue

def document : TypeSystemDocument :=
  let letter (name : String) (interfaces : List String) :
      TypeSystemDefinition :=
    .type
      ⟨position, none, name, [],
        .interface interfaces [declared "x" (.named "Int")]⟩
  [ .type
      ⟨position, none, "Query", [],
        .object ["A", "B", "C"] [declared "x" (.named "Int")]⟩,
    letter "A" ["B"], letter "B" ["C"], letter "C" []]

/- The body of a letter. -/
def shape (interfaces : List String) : FieldShape :=
  ⟨[field "x" (.named "Int" true place)], interfaces, none⟩

def letter (name : String) (interfaces : List String) : TypeDef :=
  .interface ⟨header name, shape interfaces, none⟩

def query : ObjectType :=
  ⟨header "Query", shape ["A", "B", "C"], none⟩

/- The pass that takes the document. -/
def pass : Pass :=
  { Pass.empty with
    draft :=
      [ ⟨.object query, true⟩, ⟨letter "A" ["B"], true⟩,
        ⟨letter "B" ["C"], true⟩, ⟨letter "C" [], true⟩] }

def graph : TypeGraph where
  types := TypeGraph.builtin.types ++
    pass.draft.map fun entry => .defined entry.type
  nodup_names := by decide

theorem load_document :
    Pass.empty.load none document = .ok pass := by
  rfl

theorem errors_graph :
    graph.errors =
      [ .missingInterface place "Query" ["A", "B"] "C",
        .missingInterface place "A" ["B"] "C"] := by
  cbv

/- The pass ends with the problems of its graph. -/
theorem build_pass :
    pass.build none = .error (.typeErrors graph.errors) := by
  have hValid : graph.validate =
      .error (.typeErrors graph.errors) := by
    have hFlaw : graph.flawed? = none := by
      with_unfolding_all rfl
    rw [TypeGraph.validate, hFlaw, errors_graph]
    rfl
  have hGraph : pass.build none = pass.assemble graph := by
    with_unfolding_all rfl
  rw [hGraph, Pass.assemble, hValid]
  rfl

/- The last letter is missing for the first one. -/
theorem first_lacks_last :
    .missingInterface place "A" ["B"] "C" ∈ graph.errors ∧
      ∃ self ∈ graph.implementors,
        self.name = "A" ∧ self.location = place ∧
          self.Lacks graph ["B"] "C" ∧
          "C" ∉ self.shape.interfaces := by
  have hMem :
      .missingInterface place "A" ["B"] "C" ∈ graph.errors := by
    simp [errors_graph]
  rcases TypeGraph.lacks_of_mem_errors hMem with
    ⟨self, hSelf, hName, hLocation, hLacks, hMissing⟩
  exact
    ⟨hMem, self, hSelf, hName, hLocation, hLacks, hMissing rfl⟩

/- It is reported for the object as well, which declares it. -/
theorem declared_but_missing :
    Pass.empty.load none document = .ok pass ∧
      pass.build none = .error (.typeErrors graph.errors) ∧
      .missingInterface place "Query" ["A", "B"] "C" ∈
        graph.errors ∧
      graph.lookup "Query" = some (.defined (.object query)) ∧
      "C" ∈ query.shape.interfaces := by
  refine ⟨load_document, build_pass, ?_, by rfl, ?_⟩
  · simp [errors_graph]
  · simp [query, shape]

end Letters

end GraphQL
