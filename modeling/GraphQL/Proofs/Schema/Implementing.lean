import GraphQL.Proofs.Schema.Covers

/-
  Interfaces are implemented exactly where no problem with an
  interface is reported.

  The check of a type climbs the hierarchy of the interfaces
  that it declares and checks each of them once. One that is
  met behind another one is compared with what the latter
  declares. This is enough: if nothing is missing on the way,
  all of it is declared by the type as well.

  Key definitions include:
    * `TypeError.isOfInterface`
    * `OutputField.Refines`, `Implementor.Meets`
    * `Implementor.Implements`
    * `TypeGraph.implementors`

  Main declarations:
    * `Implementor.checkDeclared_attests`
    * `Implementor.others_checkDeclared`
    * `TypeGraph.implementations_exact`
-/

------------------------------------------------------------
-- Problems With Interfaces
------------------------------------------------------------

namespace GraphQL

namespace TypeError

/- Whether a problem is one with an interface of a type. -/
def isOfInterface : TypeError → Bool
| implementsOtherKind _ _ _ => true
| implementsUndefined _ _ _ => true
| missingInterface _ _ _ _ => true
| missingField _ _ _ _ => true
| missingArgument _ _ _ _ _ => true
| argumentType _ _ _ _ _ _ _ => true
| extraArgument _ _ _ _ _ => true
| fieldType _ _ _ _ _ _ => true
| inputCycle _ => false
| inputFieldOfOutputType _ _ _ _ => false
| outputFieldOfInputType _ _ _ _ => false
| argumentOfOutputType _ _ _ => false
| memberKind _ _ _ _ => false
| undefinedType _ _ => false

/- Problems with anything but interfaces. -/
def Others (errors : List TypeError) : Prop :=
  ∀ error ∈ errors, error.isOfInterface = false

theorem others_nil : Others [] := by
  simp [Others]

theorem others_append_iff {errors more : List TypeError} :
    Others (errors ++ more) ↔ Others errors ∧ Others more :=
  List.forall_mem_append

theorem others_filterMap_iff
    {α : Type}
    {items : List α}
    {error? : α → Option TypeError} :
    Others (items.filterMap error?) ↔
      ∀ item ∈ items, ∀ error, error? item = some error →
        error.isOfInterface = false := by
  simp only [Others, List.mem_filterMap]
  constructor
  · intro h item hItem error hError
    exact h error ⟨item, hItem, hError⟩
  · rintro h error ⟨item, hItem, hError⟩
    exact h item hItem error hError

theorem others_flatMap_iff
    {α : Type}
    {items : List α}
    {errors : α → List TypeError} :
    Others (items.flatMap errors) ↔
      ∀ item ∈ items, Others (errors item) := by
  simp only [Others, List.mem_flatMap]
  constructor
  · intro h item hItem error hError
    exact h error ⟨item, hItem, hError⟩
  · rintro h error ⟨item, hItem, hError⟩
    exact h item hItem error hError

end TypeError

------------------------------------------------------------
-- Implementations
------------------------------------------------------------

/-
  A field that may stand where an interface specifies another
  one: of a subtype, with arguments of the same types, and with
  further arguments only if they may be left out.
-/
structure OutputField.Refines
    (graph : TypeGraph)
    (found expected : OutputField) : Prop where
  type : graph.isSubtype found.type expected.type = true
  arguments : ∀ entry ∈ expected.arguments, ∃ given,
    found.arguments.get? entry.1 = some given ∧
      given.type.bare = entry.2.type.bare
  others : ∀ entry ∈ found.arguments,
    expected.arguments.contains entry.1 = true ∨
      entry.2.type.nullable = true ∨
      entry.2.default.isSome = true

namespace Implementor

/- A type that has all that an interface specifies. -/
structure Meets
    (graph : TypeGraph)
    (implementor : Implementor)
    (interface : InterfaceType) : Prop where
  interfaces :
    interface.shape.interfaces ⊆ implementor.shape.interfaces
  fields : ∀ entry ∈ interface.shape.fields, ∃ found,
    implementor.shape.fields.get? entry.1 = some found ∧
      found.Refines graph entry.2

/- A type that implements the interface of a name. -/
def Implements
    (graph : TypeGraph)
    (self : Implementor)
    (name : String) : Prop :=
  ∃ interface,
    graph.lookup name = some (.defined (.interface interface)) ∧
      self.Meets graph interface

variable {graph : TypeGraph} {self : Implementor}

------------------------------------------------------------
-- Fields
------------------------------------------------------------

/- All arguments of the interface are there, of its types. -/
theorem others_argumentErrors_iff
    {interface : String}
    {expected found : OutputField} :
    TypeError.Others
        (self.argumentErrors interface expected found) ↔
      ∀ entry ∈ expected.arguments, ∃ given,
        found.arguments.get? entry.1 = some given ∧
          given.type.bare = entry.2.type.bare := by
  unfold argumentErrors
  rw [TypeError.others_filterMap_iff]
  refine forall₂_congr ?_
  rintro ⟨name, wanted⟩ _
  cases hGiven : found.arguments.get? name with
  | none => simp [TypeError.isOfInterface, hGiven]
  | some given =>
      simp only [hGiven, Option.some.injEq, exists_eq_left',
        ← TypeRef.same_iff]
      cases given.type.same wanted.type <;>
        simp [TypeError.isOfInterface]

/- All further arguments may be left out. -/
theorem others_extraArgumentErrors_iff
    {interface : String}
    {expected found : OutputField} :
    TypeError.Others
        (self.extraArgumentErrors interface expected found) ↔
      ∀ entry ∈ found.arguments,
        expected.arguments.contains entry.1 = true ∨
          entry.2.type.nullable = true ∨
          entry.2.default.isSome = true := by
  unfold extraArgumentErrors
  rw [TypeError.others_filterMap_iff]
  refine forall₂_congr ?_
  rintro ⟨name, given⟩ _
  have hPasses :
      (!expected.arguments.contains name &&
            given.isRequired) = false ↔
        expected.arguments.contains name = true ∨
          given.type.nullable = true ∨
          given.default.isSome = true := by
    unfold InputValue.isRequired
    cases expected.arguments.contains name <;>
      cases given.type.nullable <;> cases given.default <;> simp
  rw [← hPasses]
  simp only
  split
  · next hReported => simp [TypeError.isOfInterface, hReported]
  · next hSilent => simp [hSilent]

/- A field is as specified if no problem of it is reported. -/
theorem others_fieldErrors_iff
    {interface : String}
    {expected found : OutputField} :
    TypeError.Others
        (self.fieldErrors graph interface expected found) ↔
      found.Refines graph expected := by
  have hType :
      TypeError.Others
          (if graph.isSubtype found.type expected.type then
            []
          else
            [.fieldType found.type.location self.name found.name
              interface expected.type found.type]) ↔
        graph.isSubtype found.type expected.type = true := by
    cases graph.isSubtype found.type expected.type <;>
      simp [TypeError.Others, TypeError.isOfInterface]
  simp only [fieldErrors, TypeError.others_append_iff, hType,
    others_argumentErrors_iff, others_extraArgumentErrors_iff]
  constructor
  · rintro ⟨⟨hArguments, hOthers⟩, hSubtype⟩
    exact ⟨hSubtype, hArguments, hOthers⟩
  · rintro ⟨hSubtype, hArguments, hOthers⟩
    exact ⟨⟨hArguments, hOthers⟩, hSubtype⟩

/- So are all fields of an interface. -/
theorem others_shapeErrors_iff {interface : InterfaceType} :
    TypeError.Others (self.shapeErrors graph interface) ↔
      ∀ entry ∈ interface.shape.fields, ∃ found,
        self.shape.fields.get? entry.1 = some found ∧
          found.Refines graph entry.2 := by
  unfold shapeErrors
  rw [TypeError.others_flatMap_iff]
  refine forall₂_congr ?_
  rintro ⟨name, expected⟩ _
  cases hFound : self.shape.fields.get? name with
  | none =>
      simp [TypeError.Others, TypeError.isOfInterface, hFound]
  | some found => simp [others_fieldErrors_iff, hFound]

/- No interface is missing if all are declared. -/
theorem others_missingErrors_iff
    {declared path : List String}
    {interface : InterfaceType} :
    TypeError.Others
        (self.missingErrors declared path interface) ↔
      interface.shape.interfaces ⊆ declared := by
  simp only [missingErrors, TypeError.Others, List.mem_map,
    List.mem_filter, mem_sorted]
  constructor
  · intro h name hName
    by_contra hMissing
    have hError := h _ ⟨name, ⟨hName, by simpa using hMissing⟩,
      rfl⟩
    cases hError
  · rintro h _ ⟨name, ⟨hName, hMissing⟩, rfl⟩
    simp [h hName] at hMissing

------------------------------------------------------------
-- Soundness
------------------------------------------------------------

/-
  A check that finds no problem with an interface verifies only
  names of interfaces that the type implements.
-/
def Attests
    (graph : TypeGraph)
    (self : Implementor)
    (before : List String)
    (result : List TypeError × List String) : Prop :=
  TypeError.Others result.1 →
    ∀ name ∈ result.2, name ∈ before ∨ self.Implements graph name

theorem Attests.refl (before : List String) :
    Attests graph self before ([], before) :=
  fun _ _ hName => .inl hName

/- The name of an interface that is met may be verified. -/
theorem checkOne_attests
    {check : InterfaceType → List String →
      List TypeError × List String}
    (hCheck : ∀ interface verified,
      TypeError.Others (check interface verified).1 →
      self.Meets graph interface ∧
        Attests graph self verified (check interface verified))
    (name : String)
    (verified : List String) :
    Attests graph self verified
      (checkOne graph self check name (name :: verified)) := by
  intro hOthers other hOther
  unfold checkOne at hOthers hOther
  split at hOthers
  · next interface hLookup =>
      simp only [hLookup] at hOther
      rcases hCheck _ _ hOthers with ⟨hMeets, hAttests⟩
      rcases hAttests hOthers other hOther with
        hBefore | hImplements
      · rcases List.mem_cons.1 hBefore with rfl | hVerified
        · exact .inr ⟨interface, hLookup, hMeets⟩
        · exact .inl hVerified
      · exact .inr hImplements
  · exact absurd (hOthers _ List.mem_cons_self) (by
      simp [TypeError.isOfInterface])
  · exact absurd (hOthers _ List.mem_cons_self) (by
      simp [TypeError.isOfInterface])

/- Names are checked one after another. -/
theorem checkEach_attests
    {check : InterfaceType → List String →
      List TypeError × List String}
    (hOne : ∀ name verified,
      Attests graph self verified
        (checkOne graph self check name (name :: verified)))
    (names verified : List String) :
    Attests graph self verified
      (checkEach graph self check names verified) := by
  induction names generalizing verified with
  | nil => exact .refl verified
  | cons name rest ih =>
      by_cases hKnown : name ∈ verified
      · rw [checkEach, if_pos (by simpa using hKnown)]
        exact ih verified
      · rw [checkEach_cons hKnown]
        intro hOthers other hOther
        rw [TypeError.others_append_iff] at hOthers
        rcases ih _ hOthers.2 other hOther with
          hBefore | hImplements
        · exact hOne name verified hOthers.1 other hBefore
        · exact .inr hImplements

/-
  Interfaces at the end of a path are declared by the type, as
  none is missing on the way: what is declared behind one of
  them is declared by the type as well.
-/
theorem checkDeclared_attests
    (depth : Nat)
    {declared : List String}
    (hDeclared : declared ⊆ self.shape.interfaces)
    (path verified : List String) :
    Attests graph self verified
      (checkDeclared graph self depth declared path verified) := by
  induction depth generalizing declared path verified with
  | zero => exact .refl verified
  | succ depth ih =>
      unfold checkDeclared
      apply checkEach_attests
      apply checkOne_attests
      intro interface verified hOthers
      simp only [TypeError.others_append_iff] at hOthers
      rcases hOthers with ⟨⟨hMissing, hNested⟩, hFields⟩
      have hInterfaces :=
        List.Subset.trans (others_missingErrors_iff.1 hMissing)
          hDeclared
      refine
        ⟨⟨hInterfaces, others_shapeErrors_iff.1 hFields⟩, ?_⟩
      intro _ name hName
      exact ih hInterfaces _ _ hNested name hName

/- What a type declares it implements, if no problem is found. -/
theorem implements_of_others
    (h : TypeError.Others (self.interfaceErrors graph))
    {name : String}
    (hName : name ∈ self.shape.interfaces) :
    self.Implements graph name := by
  have hVerified :=
    (@checkDeclared_verifies graph self (graph.size + 1)
      self.shape.interfaces [] []).2 (Nat.succ_pos _) hName
  have hAttests := @checkDeclared_attests graph self
    (graph.size + 1) _ (List.Subset.refl _) [] []
  rcases hAttests h name hVerified with hBefore | hImplements
  · cases hBefore
  · exact hImplements

------------------------------------------------------------
-- Completeness
------------------------------------------------------------

/- Names without problems have none together. -/
theorem others_checkEach
    {check : InterfaceType → List String →
      List TypeError × List String}
    {names : List String}
    (hOne : ∀ name ∈ names, ∀ verified,
      TypeError.Others
        (checkOne graph self check name verified).1)
    (verified : List String) :
    TypeError.Others
      (checkEach graph self check names verified).1 := by
  induction names generalizing verified with
  | nil => exact TypeError.others_nil
  | cons name rest ih =>
      have hRest := ih fun other hOther =>
        hOne other (List.mem_cons_of_mem name hOther)
      by_cases hKnown : name ∈ verified
      · rw [checkEach, if_pos (by simpa using hKnown)]
        exact hRest verified
      · rw [checkEach_cons hKnown]
        exact TypeError.others_append_iff.2
          ⟨hOne name List.mem_cons_self _, hRest _⟩

/- Names with all that the interfaces of the names declare. -/
def Full (graph : TypeGraph) (names : List String) : Prop :=
  ∀ name ∈ names, ∀ interface,
    graph.lookup name = some (.defined (.interface interface)) →
    interface.shape.interfaces ⊆ names

/-
  A type that implements what it declares has no problems: at
  the end of each path stand interfaces that the type declares,
  with all that they declare.
-/
theorem others_checkDeclared
    (hSelf : ∀ name ∈ self.shape.interfaces,
      self.Implements graph name)
    (hFull : ∀ name interface,
      graph.lookup name = some (.defined (.interface interface)) →
      Full graph interface.shape.interfaces)
    (depth : Nat)
    {declared : List String}
    (hDeclared : declared ⊆ self.shape.interfaces)
    (hAll : Full graph declared)
    (path verified : List String) :
    TypeError.Others
      (checkDeclared graph self depth declared path
        verified).1 := by
  induction depth generalizing declared path verified with
  | zero => exact TypeError.others_nil
  | succ depth ih =>
      unfold checkDeclared
      apply others_checkEach
      intro name hName verified
      rw [mem_sorted] at hName
      rcases hSelf name (hDeclared hName) with
        ⟨interface, hLookup, hMeets⟩
      have hNested := ih hMeets.interfaces
        (hFull name interface hLookup)
        (path ++ [interface.name]) verified
      simp only [checkOne, hLookup,
        TypeError.others_append_iff, others_missingErrors_iff,
        others_shapeErrors_iff]
      exact
        ⟨⟨hAll name hName interface hLookup, hNested⟩,
          hMeets.fields⟩

end Implementor

------------------------------------------------------------
-- Graphs
------------------------------------------------------------

/- A type as an implementor, if it may declare interfaces. -/
def NamedType.implementor? : NamedType → Option Implementor
| .defined type => type.implementor?
| .builtin _ => none

namespace TypeGraph

/- The object and interface types of a graph. -/
def implementors (graph : TypeGraph) : List Implementor :=
  graph.types.filterMap NamedType.implementor?

variable {graph : TypeGraph}

/- An interface is an implementor of its own interfaces. -/
theorem exists_implementor_of_lookup
    {name : String}
    {interface : InterfaceType}
    (h : graph.lookup name =
      some (.defined (.interface interface))) :
    ∃ self ∈ graph.implementors,
      self.shape = interface.shape :=
  ⟨⟨interface.name, interface.header.location, interface.shape⟩,
    List.mem_filterMap.2 ⟨_, mem_of_lookup h, rfl⟩, rfl⟩

/- References to types are no problem with an interface. -/
theorem others_referenceErrors
    {ref : TypeRef}
    {admits : NamedType → Bool}
    {error : TypeError}
    (h : error.isOfInterface = false) :
    TypeError.Others
      (graph.referenceErrors ref fun type =>
        if admits type then none else some error) := by
  unfold referenceErrors
  split
  · dsimp only
    split
    · exact TypeError.others_nil
    · simpa [TypeError.Others] using h
  · simp [TypeError.Others, TypeError.isOfInterface]

/- The types of a field are no problem with an interface. -/
theorem others_fieldErrors
    (parent name : String)
    (field : OutputField) :
    TypeError.Others (graph.fieldErrors parent name field) := by
  refine TypeError.others_append_iff.2 ⟨?_, ?_⟩
  · exact others_referenceErrors rfl
  · rw [TypeError.others_flatMap_iff]
    intro entry _
    exact others_referenceErrors rfl

/-
  No problem with an interface is found in all object and
  interface types of a graph exactly if each of them implements
  every interface that it declares.
-/
theorem implementations_exact (graph : TypeGraph) :
    (∀ self ∈ graph.implementors,
        ∀ error ∈ graph.implementorErrors self,
          error.isOfInterface = false) ↔
      ∀ self ∈ graph.implementors,
        ∀ name ∈ self.shape.interfaces,
          self.Implements graph name := by
  constructor
  · intro h self hSelf name hName
    have hOthers : TypeError.Others
        (graph.implementorErrors self) := h self hSelf
    rw [implementorErrors, TypeError.others_append_iff]
      at hOthers
    exact Implementor.implements_of_others hOthers.1 hName
  · intro h self hSelf
    have hFull : ∀ self ∈ graph.implementors,
        Implementor.Full graph self.shape.interfaces := by
      intro self hSelf name hName interface hLookup
      rcases h self hSelf name hName with
        ⟨found, hFound, hMeets⟩
      rw [hLookup] at hFound
      cases hFound
      exact hMeets.interfaces
    have hInterfaces : ∀ name interface,
        graph.lookup name =
          some (.defined (.interface interface)) →
        Implementor.Full graph interface.shape.interfaces := by
      intro name interface hLookup
      rcases exists_implementor_of_lookup hLookup with
        ⟨other, hOther, hShape⟩
      exact hShape ▸ hFull other hOther
    refine TypeError.others_append_iff.2 ⟨?_, ?_⟩
    · exact Implementor.others_checkDeclared (h self hSelf)
        hInterfaces _ (List.Subset.refl _) (hFull self hSelf)
        [] []
    · rw [TypeError.others_flatMap_iff]
      intro entry _
      exact others_fieldErrors self.name entry.1 entry.2

end TypeGraph

end GraphQL
