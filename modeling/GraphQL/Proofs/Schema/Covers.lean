import GraphQL.TypeSystem.Validation
import GraphQL.Proofs.Schema.Alike
import GraphQL.Proofs.Schema.Closed
import GraphQL.Proofs.Results

/-
  What validation depends on.

  A graph covers another one if under every name it has all
  that validation asks of the other: then the other is valid if
  it is. Neither locations nor the order of types and of their
  parts matter, nor do hooks and descriptions.

  Key definitions include:
    * `TypeRef.bare`: a reference without locations
    * `Entries.Covers`, `TypeDef.Covers`, `TypeGraph.Covers`
    * `Implementor.Clears`: checks that find no more

  Main declarations:
    * `TypeDef.Covers.flaw?_eq_none`
    * `TypeGraph.Covers.typeErrors_eq_nil`
    * `TypeGraph.Covers.validate_eq_ok`
    * `TypeGraph.Matches.same_validate`
-/

------------------------------------------------------------
-- References
------------------------------------------------------------

namespace GraphQL

namespace TypeRef

/- A reference without regard to where it stands. -/
def bare : TypeRef → TypeRef
| named name nullable _ => named name nullable .builtin
| list inner nullable _ => list inner.bare nullable .builtin

@[simp]
theorem nullable_bare (ref : TypeRef) :
    ref.bare.nullable = ref.nullable := by
  cases ref <;> rfl

@[simp]
theorem innermost_bare (ref : TypeRef) :
    ref.bare.innermost = ref.innermost := by
  induction ref with
  | named name nullable location => rfl
  | list inner nullable location ih => exact ih

@[simp]
theorem required?_bare (ref : TypeRef) :
    InputObjectType.required? ref.bare =
      InputObjectType.required? ref := by
  cases ref with
  | named name nullable location => cases nullable <;> rfl
  | list inner nullable location => rfl

/- References are the same if they are up to locations. -/
theorem same_iff (a b : TypeRef) :
    a.same b = true ↔ a.bare = b.bare := by
  induction a generalizing b with
  | named name nullable location =>
      cases b <;> simp [same, bare, and_comm]
  | list inner nullable location ih =>
      cases b with
      | named other nullable' location' => simp [same, bare]
      | list inner' nullable' location' =>
          simp [same, bare, ih, and_comm]

end TypeRef

/- Where references stand makes no difference to subtypes. -/
@[simp]
theorem TypeGraph.isSubtype_bare
    (graph : TypeGraph)
    (sub super : TypeRef) :
    graph.isSubtype sub.bare super.bare =
      graph.isSubtype sub super := by
  induction sub generalizing super with
  | named name nullable location => cases super <;> rfl
  | list inner nullable location ih =>
      cases super with
      | named name nullable' location' => rfl
      | list inner' nullable' location' =>
          simp only [TypeRef.bare, isSubtype, ih]

------------------------------------------------------------
-- Parts Of Types
------------------------------------------------------------

/-
  Every entry of the second covered by one of its name, and so
  is what is found under a name.
-/
structure Entries.Covers
    {α : Type}
    (Cover : α → α → Prop)
    (first second : Entries α) : Prop where
  exists_mem : ∀ entry ∈ second, ∃ value,
    (entry.1, value) ∈ first ∧ Cover value entry.2
  get? : ∀ name,
    Option.Rel Cover (Entries.get? first name)
      (Entries.get? second name)

namespace Entries

variable {α : Type} {Cover : α → α → Prop}
variable {first second : Entries α}

/- What stands in the second is found in the first. -/
theorem Covers.contains_eq
    (h : Covers Cover first second)
    (name : String) :
    first.contains name = second.contains name := by
  have hFree := eq_none_iff_of_rel (h.get? name)
  unfold Entries.contains
  rw [Bool.eq_iff_iff, Option.isSome_iff_ne_none,
    Option.isSome_iff_ne_none]
  exact not_congr hFree

theorem Covers.eq_nil_of_eq_nil
    (h : Covers Cover first second)
    (hSecond : second = []) : first = [] := by
  cases first with
  | nil => rfl
  | cons entry rest =>
      have hContains := h.contains_eq entry.1
      simp [hSecond, contains, Entries.get?] at hContains

/- Entries that are alike cover each other. -/
theorem Alike.covers
    (h : first.Alike second)
    (hRefl : ∀ value, Cover value value) :
    Covers Cover first second where
  exists_mem entry hEntry :=
    ⟨entry.2, h.perm.mem_iff.2 hEntry, hRefl entry.2⟩
  get? name := by
    rw [h.get?_eq]
    cases Entries.get? second name with
    | none => exact .none
    | some value => exact .some (hRefl value)

end Entries

/-
  Arguments or input fields with the same name and type, that
  are both required or none is.
-/
structure InputValue.Covers (first second : InputValue) :
    Prop where
  name_eq : first.name = second.name
  type_eq : first.type.bare = second.type.bare
  isNone_eq : first.default.isNone = second.default.isNone

theorem InputValue.Covers.refl (value : InputValue) :
    value.Covers value :=
  ⟨rfl, rfl, rfl⟩

theorem InputValue.Covers.isRequired_eq
    {first second : InputValue}
    (h : first.Covers second) :
    first.isRequired = second.isRequired := by
  unfold isRequired
  rw [← TypeRef.nullable_bare, h.type_eq, h.isNone_eq,
    TypeRef.nullable_bare]

/- Fields with the same name, type and arguments. -/
structure OutputField.Covers (first second : OutputField) :
    Prop where
  name_eq : first.name = second.name
  type_eq : first.type.bare = second.type.bare
  arguments :
    Entries.Covers InputValue.Covers first.arguments
      second.arguments

theorem OutputField.Covers.refl (field : OutputField) :
    field.Covers field :=
  ⟨rfl, rfl,
    (Entries.alike_equivalence.refl _).covers .refl⟩

/- Bodies with the same fields and interfaces. -/
structure FieldShape.Covers (first second : FieldShape) :
    Prop where
  fields :
    Entries.Covers OutputField.Covers first.fields second.fields
  interfaces : first.interfaces.Perm second.interfaces

theorem FieldShape.Alike.covers
    {first second : FieldShape}
    (h : first.Alike second) : first.Covers second :=
  ⟨h.fields.covers .refl, h.interfaces⟩

------------------------------------------------------------
-- Types
------------------------------------------------------------

namespace TypeDef

/-
  Types of one kind and name such that the first has all that
  validation asks of the second.
-/
inductive Covers : TypeDef → TypeDef → Prop where
  | object {first second : ObjectType} :
      first.name = second.name →
      first.shape.Covers second.shape →
      Covers (.object first) (.object second)
  | interface {first second : InterfaceType} :
      first.name = second.name →
      first.shape.Covers second.shape →
      Covers (.interface first) (.interface second)
  | union {first second : UnionType} :
      first.name = second.name →
      first.listed.Perm second.listed →
      Covers (.union first) (.union second)
  | enum {first second : EnumType} :
      first.name = second.name →
      (∀ name, name ∈ first.values.map EnumValue.name ↔
        name ∈ second.values.map EnumValue.name) →
      ((first.values.map EnumValue.name).Nodup →
        (second.values.map EnumValue.name).Nodup) →
      Covers (.enum first) (.enum second)
  | scalar {first second : ScalarType} :
      first.header.name = second.header.name →
      Covers (.scalar first) (.scalar second)
  | inputObject {first second : InputObjectType} :
      first.name = second.name →
      Entries.Covers InputValue.Covers first.fields
        second.fields →
      Covers (.inputObject first) (.inputObject second)

variable {first second : TypeDef}

theorem Alike.covers (h : first.Alike second) :
    first.Covers second := by
  cases h with
  | object hHeader hShape _ =>
      exact .object hHeader.name_eq hShape.covers
  | interface hHeader hShape _ =>
      exact .interface hHeader.name_eq hShape.covers
  | union hHeader hListed _ =>
      exact .union hHeader.name_eq hListed
  | enum hHeader hValues =>
      have hNames := hValues.map EnumValue.name
      exact .enum hHeader.name_eq (fun _ => hNames.mem_iff)
        hNames.nodup_iff.1
  | scalar hHeader _ _ _ => exact .scalar hHeader.name_eq
  | inputObject hHeader hFields =>
      exact .inputObject hHeader.name_eq (hFields.covers .refl)

theorem Covers.name_eq (h : first.Covers second) :
    first.name = second.name := by
  cases h <;> assumption

end TypeDef

namespace NamedType

/- The same built-in scalar, or a defined type that covers. -/
inductive Covers : NamedType → NamedType → Prop where
  | builtin {scalar : BuiltinScalar} :
      Covers (.builtin scalar) (.builtin scalar)
  | defined {first second : TypeDef} :
      first.Covers second →
      Covers (.defined first) (.defined second)

variable {type type' : NamedType}

theorem Alike.covers (h : type.Alike type') :
    type.Covers type' := by
  cases h with
  | builtin => exact .builtin
  | defined hTypes => exact .defined hTypes.covers

theorem Covers.name_eq (h : type.Covers type') :
    type.name = type'.name := by
  cases h with
  | builtin => rfl
  | defined hTypes => exact hTypes.name_eq

theorem Covers.isInput_eq (h : type.Covers type') :
    type.isInput = type'.isInput := by
  cases h with
  | builtin => rfl
  | defined hTypes => cases hTypes <;> rfl

theorem Covers.isOutput_eq (h : type.Covers type') :
    type.isOutput = type'.isOutput := by
  cases h with
  | builtin => rfl
  | defined hTypes => cases hTypes <;> rfl

end NamedType

namespace TypeGraph

/- A graph whose types cover those of another, name by name. -/
structure Covers (graph graph' : TypeGraph) : Prop where
  lookup : ∀ name,
    Option.Rel NamedType.Covers (graph.lookup name)
      (graph'.lookup name)

variable {graph graph' : TypeGraph}

theorem Matches.covers (h : graph.Matches graph') :
    graph.Covers graph' :=
  ⟨fun name => optionRel_imp (fun _ _ hAlike => hAlike.covers)
    (h.lookup name)⟩

/- Every type of the second graph is covered. -/
theorem Covers.exists_of_mem
    (h : graph.Covers graph')
    {type' : NamedType}
    (hType : type' ∈ graph'.types) :
    ∃ type ∈ graph.types, type.Covers type' := by
  have hFound := h.lookup type'.name
  rw [lookup_of_mem hType] at hFound
  rcases exists_of_rel_some hFound with
    ⟨type, hLookup, hCovers⟩
  exact ⟨type, mem_of_lookup hLookup, hCovers⟩

/- Graphs with the same names have as many types. -/
theorem Covers.size_eq (h : graph.Covers graph') :
    graph.size = graph'.size := by
  have hNames : graph.names.Perm graph'.names := by
    unfold names
    rw [List.perm_ext_iff_of_nodup graph.nodup_names
      graph'.nodup_names]
    intro name
    have hFree := eq_none_iff_of_rel (h.lookup name)
    rw [lookup_eq_none_iff, lookup_eq_none_iff] at hFree
    exact not_iff_not.1 hFree
  simpa [names, size] using hNames.length_eq

end TypeGraph

------------------------------------------------------------
-- Flaws
------------------------------------------------------------

namespace TypeFlaw

/- Fields without flaws are there, and each has none. -/
theorem firstFlaw_eq_none_iff
    {α : Type}
    {flaw? : String × α → Option TypeFlaw}
    {fields : Entries α} :
    (if fields.isEmpty then
        some TypeFlaw.noFields
      else
        fields.findSome? flaw?) = none ↔
      fields ≠ [] ∧ ∀ entry ∈ fields, flaw? entry = none := by
  cases fields with
  | nil => simp
  | cons entry rest => simp

/- Names of values have to be valid and distinct. -/
theorem ofValueNames?_eq_none_iff (seen names : List String) :
    ofValueNames? seen names = none ↔
      (∀ name ∈ names,
          (!Name.isValid name || isLiteralWord name) = false ∧
            name ∉ seen) ∧
        names.Nodup := by
  induction names generalizing seen with
  | nil => simp [ofValueNames?]
  | cons name rest ih =>
      unfold ofValueNames?
      by_cases hWord :
          (!Name.isValid name || isLiteralWord name) = true
      · rw [if_pos hWord]
        refine ⟨fun h => absurd h (by simp), ?_⟩
        intro hParts
        rcases hParts with ⟨hAll, -⟩
        have hValid := (hAll name List.mem_cons_self).1
        rw [hWord] at hValid
        cases hValid
      · by_cases hSeen : name ∈ seen
        · simp [hWord, hSeen]
        · rw [if_neg hWord, if_neg (by simpa using hSeen), ih]
          constructor
          · intro hParts
            rcases hParts with ⟨hRest, hNodup⟩
            refine ⟨?_, List.nodup_cons.2 ⟨?_, hNodup⟩⟩
            · intro other hOther
              rcases List.mem_cons.1 hOther with rfl | hMem
              · exact ⟨by simpa using hWord, hSeen⟩
              · rcases hRest other hMem with ⟨hValid, hNew⟩
                exact ⟨hValid, fun hMem =>
                  hNew (List.mem_cons_of_mem name hMem)⟩
            · intro hMem
              exact (hRest name hMem).2 List.mem_cons_self
          · intro hParts
            rcases hParts with ⟨hAll, hNodup⟩
            rw [List.nodup_cons] at hNodup
            refine ⟨?_, hNodup.2⟩
            intro other hOther
            rcases hAll other (List.mem_cons_of_mem name hOther)
              with ⟨hValid, hNew⟩
            refine ⟨hValid, ?_⟩
            intro hMem
            rcases List.mem_cons.1 hMem with rfl | hBefore
            · exact hNodup.1 hOther
            · exact hNew hBefore

/- Values without flaws are there, with names that will do. -/
theorem ofValues?_eq_none_iff {values : List EnumValue} :
    ofValues? values = none ↔
      values ≠ [] ∧
        (∀ name ∈ values.map EnumValue.name,
          (!Name.isValid name || isLiteralWord name) = false) ∧
        (values.map EnumValue.name).Nodup := by
  unfold ofValues?
  cases values with
  | nil => simp
  | cons value rest =>
      rw [if_neg (by simp), ofValueNames?_eq_none_iff]
      simp

/- Fields that are covered have flaws only if others have. -/
theorem ofField?_eq_none_of_covers
    {key : String}
    {field field' : OutputField}
    (h : field.Covers field')
    (hField : ofField? key field = none) :
    ofField? key field' = none := by
  unfold ofField? at hField ⊢
  rw [Option.or_eq_none_iff, List.findSome?_eq_none_iff]
    at hField ⊢
  rw [← h.name_eq]
  refine ⟨hField.1, ?_⟩
  intro entry hEntry
  rcases h.arguments.exists_mem entry hEntry with
    ⟨argument, hArgument, hCovers⟩
  rw [← hCovers.name_eq]
  exact hField.2 _ hArgument

theorem ofFields?_eq_none_of_covers
    {fields fields' : Entries OutputField}
    (h : Entries.Covers OutputField.Covers fields fields')
    (hFields : ofFields? fields = none) :
    ofFields? fields' = none := by
  unfold ofFields? at hFields ⊢
  rw [firstFlaw_eq_none_iff] at hFields ⊢
  refine ⟨fun hNil => hFields.1 (h.eq_nil_of_eq_nil hNil), ?_⟩
  intro entry hEntry
  rcases h.exists_mem entry hEntry with ⟨field, hField, hCovers⟩
  exact ofField?_eq_none_of_covers hCovers (hFields.2 _ hField)

theorem ofInputFields?_eq_none_of_covers
    {fields fields' : Entries InputValue}
    (h : Entries.Covers InputValue.Covers fields fields')
    (hFields : ofInputFields? fields = none) :
    ofInputFields? fields' = none := by
  unfold ofInputFields? at hFields ⊢
  rw [firstFlaw_eq_none_iff] at hFields ⊢
  refine ⟨fun hNil => hFields.1 (h.eq_nil_of_eq_nil hNil), ?_⟩
  intro entry hEntry
  rcases h.exists_mem entry hEntry with ⟨field, hField, hCovers⟩
  rw [← hCovers.name_eq]
  exact hFields.2 _ hField

end TypeFlaw

/- No element is left twice. -/
theorem nodup_eraseDups (names : List String) :
    names.eraseDups.Nodup := by
  induction hLength : names.length using Nat.strongRecOn
    generalizing names with
  | ind length ih =>
      cases names with
      | nil => simp
      | cons name rest =>
          rw [List.eraseDups_cons, List.nodup_cons]
          refine ⟨by simp [List.mem_eraseDups], ih _ ?_ _ rfl⟩
          have hShorter := List.length_filter_le
            (fun other => !other == name) rest
          simp only [List.length_cons] at hLength
          omega

/- Distinct names are the same, whatever their order. -/
theorem eraseDups_perm
    {names names' : List String}
    (hPerm : names.Perm names') :
    names.eraseDups.Perm names'.eraseDups := by
  rw [List.perm_ext_iff_of_nodup (nodup_eraseDups names)
    (nodup_eraseDups names')]
  intro name
  rw [List.mem_eraseDups, List.mem_eraseDups]
  exact hPerm.mem_iff

theorem UnionType.members_perm
    {first second : UnionType}
    (hPerm : first.listed.Perm second.listed) :
    first.members.Perm second.members :=
  eraseDups_perm hPerm

/- A type that is covered has flaws only if the other has. -/
theorem TypeDef.Covers.flaw?_eq_none
    {first second : TypeDef}
    (h : first.Covers second)
    (hFirst : first.flaw? = none) :
    second.flaw? = none := by
  cases h with
  | object _ hShape =>
      exact TypeFlaw.ofFields?_eq_none_of_covers hShape.fields
        hFirst
  | interface _ hShape =>
      exact TypeFlaw.ofFields?_eq_none_of_covers hShape.fields
        hFirst
  | union _ hListed =>
      have hMembers := UnionType.members_perm hListed
      rw [flaw?] at hFirst ⊢
      rw [← hMembers.isEmpty_eq]
      exact hFirst
  | @enum first second _ hNames hNodup =>
      rw [flaw?, TypeFlaw.ofValues?_eq_none_iff] at hFirst ⊢
      rcases hFirst with ⟨hValues, hValid, hFirst⟩
      refine ⟨?_, ?_, hNodup hFirst⟩
      · intro hNil
        rcases List.exists_mem_of_ne_nil _ hValues with
          ⟨value, hValue⟩
        have hName :=
          (hNames value.name).1 (List.mem_map_of_mem hValue)
        simp [hNil] at hName
      · intro name hName
        exact hValid name ((hNames name).2 hName)
  | scalar _ => rfl
  | inputObject _ hFields =>
      exact TypeFlaw.ofInputFields?_eq_none_of_covers hFields
        hFirst

namespace TypeGraph

variable {graph graph' : TypeGraph}

theorem Covers.flawed?_eq_none
    (h : graph.Covers graph')
    (hFirst : graph.flawed? = none) :
    graph'.flawed? = none := by
  unfold flawed? at hFirst ⊢
  rw [List.findSome?_eq_none_iff] at hFirst ⊢
  intro type' hType'
  rcases h.exists_of_mem hType' with ⟨type, hType, hCovers⟩
  have hNone := hFirst type hType
  cases hCovers with
  | builtin => rfl
  | defined hTypes =>
      simp only [NamedType.flawed?, Option.map_eq_none_iff]
        at hNone ⊢
      exact hTypes.flaw?_eq_none hNone

------------------------------------------------------------
-- Uses Of Types
------------------------------------------------------------

variable (h : graph.Covers graph')

include h

/- A reference that is right in one graph is in the other. -/
theorem Covers.referenceErrors_eq_nil
    {ref ref' : TypeRef}
    (hRef : ref.bare = ref'.bare)
    {problem? problem?' : NamedType → Option TypeError}
    (hProblem : ∀ type type', type.Covers type' →
      problem? type = none → problem?' type' = none)
    (hNone : graph.referenceErrors ref problem? = []) :
    graph'.referenceErrors ref' problem?' = [] := by
  have hFound := h.lookup ref.innermost
  have hName : ref'.innermost = ref.innermost := by
    rw [← TypeRef.innermost_bare, ← hRef, TypeRef.innermost_bare]
  unfold referenceErrors at hNone ⊢
  rw [hName]
  generalize graph.lookup ref.innermost = found at hFound hNone
  generalize graph'.lookup ref.innermost = found' at hFound ⊢
  cases hFound with
  | none => cases hNone
  | some hCovers =>
      simp only [Option.toList_eq_nil_iff] at hNone ⊢
      exact hProblem _ _ hCovers hNone

theorem Covers.argumentErrors_eq_nil
    {name : String}
    {argument argument' : InputValue}
    (hArgument : argument.Covers argument')
    (hNone : graph.argumentErrors name argument = []) :
    graph'.argumentErrors name argument' = [] := by
  refine h.referenceErrors_eq_nil hArgument.type_eq ?_ hNone
  intro type type' hCovers hProblem
  simpa [hCovers.isInput_eq] using hProblem

theorem Covers.fieldErrors_eq_nil
    {parent parent' name : String}
    {field field' : OutputField}
    (hField : field.Covers field')
    (hNone : graph.fieldErrors parent name field = []) :
    graph'.fieldErrors parent' name field' = [] := by
  simp only [fieldErrors, List.append_eq_nil_iff,
    List.flatMap_eq_nil_iff] at hNone ⊢
  constructor
  · refine h.referenceErrors_eq_nil hField.type_eq ?_ hNone.1
    intro type type' hCovers hProblem
    simpa [hCovers.isOutput_eq] using hProblem
  · intro entry hEntry
    rcases hField.arguments.exists_mem entry hEntry with
      ⟨argument, hArgument, hCovers⟩
    exact h.argumentErrors_eq_nil hCovers
      (hNone.2 _ hArgument)

theorem Covers.inputFieldErrors_eq_nil
    {parent parent' name : String}
    {field field' : InputValue}
    (hField : field.Covers field')
    (hNone : graph.inputFieldErrors parent name field = []) :
    graph'.inputFieldErrors parent' name field' = [] := by
  refine h.referenceErrors_eq_nil hField.type_eq ?_ hNone
  intro type type' hCovers hProblem
  simpa [hCovers.isInput_eq] using hProblem

theorem Covers.memberError?_eq_none
    {union union' : UnionType}
    {member : String}
    (hNone : graph.memberError? union member = none) :
    graph'.memberError? union' member = none := by
  rcases hasObject_of_memberError?_eq_none hNone with
    ⟨object, hLookup⟩
  have hFound := h.lookup member
  rw [hLookup] at hFound
  unfold memberError?
  generalize graph'.lookup member = found' at hFound ⊢
  cases hFound with
  | some hCovers =>
      cases hCovers with
      | defined hTypes =>
          cases hTypes with
          | object _ _ => rfl

/- Names are subtypes in both graphs or in none. -/
theorem Covers.isNameSubtype_eq (sub super : String) :
    graph.isNameSubtype sub super =
      graph'.isNameSubtype sub super := by
  have hSub := h.lookup sub
  have hSuper := h.lookup super
  unfold isNameSubtype
  generalize graph.lookup sub = a at hSub ⊢
  generalize graph'.lookup sub = a' at hSub ⊢
  generalize graph.lookup super = b at hSuper ⊢
  generalize graph'.lookup super = b' at hSuper ⊢
  cases hSub with
  | none => rfl
  | some hSub =>
      cases hSuper with
      | none => rfl
      | some hSuper =>
          simp only [hSub.name_eq, hSuper.name_eq]
          split
          · rfl
          · cases hSub with
            | builtin => rfl
            | defined hFirst =>
                cases hSuper with
                | builtin => cases hFirst <;> rfl
                | defined hSecond =>
                    cases hFirst with
                    | interface _ hShape =>
                        cases hSecond with
                        | interface hName _ =>
                            have hAll := hShape.interfaces
                            simp only [InterfaceType.implements,
                              hName, hAll.contains_eq]
                        | _ => rfl
                    | object hOwn hShape =>
                        have hAll := hShape.interfaces
                        cases hSecond with
                        | interface hName _ =>
                            simp only [ObjectType.implements,
                              hName, hAll.contains_eq]
                        | union _ hListed =>
                            have hMembers :=
                              UnionType.members_perm hListed
                            simp only [hOwn,
                              hMembers.contains_eq]
                        | _ => rfl
                    | _ => rfl

theorem Covers.isSubtype_eq
    {sub sub' super super' : TypeRef}
    (hSub : sub.bare = sub'.bare)
    (hSuper : super.bare = super'.bare) :
    graph.isSubtype sub super = graph'.isSubtype sub' super' := by
  have hNames : ∀ sub super : TypeRef,
      graph.isSubtype sub super = graph'.isSubtype sub super := by
    intro sub
    induction sub with
    | list a nullable location ih =>
        intro super
        cases super with
        | list b nullable' location' =>
            simp only [isSubtype, ih b]
        | named name nullable' location' => rfl
    | named name nullable location =>
        intro super
        cases super with
        | list b nullable' location' => rfl
        | named other nullable' location' =>
            simp only [isSubtype, h.isNameSubtype_eq]
  rw [← isSubtype_bare, hSub, hSuper, isSubtype_bare, hNames]

end TypeGraph

------------------------------------------------------------
-- Interfaces
------------------------------------------------------------

namespace Implementor

/- Names are sorted the same way, whatever their order. -/
theorem sorted_eq_of_perm
    {names names' : List String}
    (hPerm : names.Perm names') :
    sorted names = sorted names' := by
  have hSorted := ((List.mergeSort_perm names.eraseDups
    (fun a b => a ≤ b)).trans (eraseDups_perm hPerm)).trans
      (List.mergeSort_perm names'.eraseDups
        (fun a b => a ≤ b)).symm
  have hPairwise : ∀ names : List String,
      (names.mergeSort fun a b => decide (a ≤ b)).Pairwise
        fun a b => a ≤ b := by
    intro names
    have hOrder := @List.pairwise_mergeSort String
      (fun a b => decide (a ≤ b))
      (fun a b c hab hbc => by
        simpa using String.le_trans (by simpa using hab)
          (by simpa using hbc))
      (fun a b => by simpa using String.le_total a b) names
    simpa using hOrder
  exact hSorted.eq_of_pairwise
    (fun a b _ _ => String.le_antisymm)
    (hPairwise _) (hPairwise _)

section

variable {graph graph' : TypeGraph} {first second : Implementor}

/- The arguments of an interface are there in both fields. -/
theorem argumentErrors_eq_nil
    {interface interface' : String}
    {expected expected' found found' : OutputField}
    (hExpected : expected.Covers expected')
    (hFound : found.Covers found')
    (hNone : first.argumentErrors interface expected found =
      []) :
    second.argumentErrors interface' expected' found' = [] := by
  unfold argumentErrors at hNone ⊢
  rw [List.filterMap_eq_nil_iff] at hNone ⊢
  rintro ⟨name, wanted'⟩ hWanted'
  rcases hExpected.arguments.exists_mem _ hWanted' with
    ⟨wanted, hWanted, hSame⟩
  have hError := hNone _ hWanted
  have hGiven := hFound.arguments.get? name
  simp only at hError ⊢
  generalize found.arguments.get? name = given at hError hGiven
  generalize found'.arguments.get? name = given' at hGiven ⊢
  cases hGiven with
  | none => cases hError
  | @some given given' hGiven =>
      have hType : given.type.same wanted.type = true := by
        by_contra hOther
        simp [hOther] at hError
      have hType' : given'.type.same wanted'.type = true := by
        rw [TypeRef.same_iff] at hType ⊢
        exact hGiven.type_eq.symm.trans
          (hType.trans hSame.type_eq)
      simp only [hType', if_true]

/- Further arguments are required in both fields or in none. -/
theorem extraArgumentErrors_eq_nil
    {interface interface' : String}
    {expected expected' found found' : OutputField}
    (hExpected : expected.Covers expected')
    (hFound : found.Covers found')
    (hNone :
      first.extraArgumentErrors interface expected found = []) :
    second.extraArgumentErrors interface' expected' found' =
      [] := by
  unfold extraArgumentErrors at hNone ⊢
  rw [List.filterMap_eq_nil_iff] at hNone ⊢
  rintro ⟨name, given'⟩ hGiven'
  rcases hFound.arguments.exists_mem _ hGiven' with
    ⟨given, hGiven, hSame⟩
  have hError := hNone _ hGiven
  simp only [← hExpected.arguments.contains_eq,
    ← hSame.isRequired_eq] at hError ⊢
  split at hError
  · cases hError
  · next hPasses => rw [if_neg hPasses]

/- A field is right in both graphs. -/
theorem fieldErrors_eq_nil
    (h : graph.Covers graph')
    {interface interface' : String}
    {expected expected' found found' : OutputField}
    (hExpected : expected.Covers expected')
    (hFound : found.Covers found')
    (hNone :
      first.fieldErrors graph interface expected found = []) :
    second.fieldErrors graph' interface' expected' found' =
      [] := by
  have hType := h.isSubtype_eq hFound.type_eq hExpected.type_eq
  simp only [fieldErrors, List.append_eq_nil_iff] at hNone ⊢
  rcases hNone with ⟨⟨hArguments, hExtra⟩, hTypes⟩
  refine
    ⟨⟨argumentErrors_eq_nil hExpected hFound hArguments,
      extraArgumentErrors_eq_nil hExpected hFound hExtra⟩, ?_⟩
  rw [← hType]
  split at hTypes
  · next hSubtype => rw [if_pos hSubtype]
  · cases hTypes

/- All fields of an interface are right in both graphs. -/
theorem shapeErrors_eq_nil
    (h : graph.Covers graph')
    (hShape : first.shape.Covers second.shape)
    {interface interface' : InterfaceType}
    (hInterface : interface.shape.Covers interface'.shape)
    (hNone : first.shapeErrors graph interface = []) :
    second.shapeErrors graph' interface' = [] := by
  unfold shapeErrors at hNone ⊢
  rw [List.flatMap_eq_nil_iff] at hNone ⊢
  rintro ⟨name, expected'⟩ hExpected'
  rcases hInterface.fields.exists_mem _ hExpected' with
    ⟨expected, hExpected, hSame⟩
  have hErrors := hNone _ hExpected
  have hFound := hShape.fields.get? name
  simp only at hErrors ⊢
  generalize first.shape.fields.get? name = found
    at hErrors hFound
  generalize second.shape.fields.get? name = found' at hFound ⊢
  cases hFound with
  | none => cases hErrors
  | some hFound =>
      exact fieldErrors_eq_nil h hSame hFound hErrors

/- Interfaces are missing in both graphs or in none. -/
theorem missingErrors_eq_nil
    {interface interface' : InterfaceType}
    (hInterface : interface.shape.Covers interface'.shape)
    {declared declared' path path' : List String}
    (hDeclared : declared.Perm declared')
    (hNone :
      first.missingErrors declared path interface = []) :
    second.missingErrors declared' path' interface' = [] := by
  simp only [missingErrors, List.map_eq_nil_iff] at hNone ⊢
  rw [← sorted_eq_of_perm hInterface.interfaces]
  simpa only [hDeclared.contains_eq] using hNone

end

------------------------------------------------------------
-- Hierarchies
------------------------------------------------------------

/-
  Checks that verify the same names, of which the second one
  finds an error only if the first one does.
-/
structure Clears
    (first second : List TypeError × List String) : Prop where
  verified_eq : first.2 = second.2
  eq_nil : first.1 = [] → second.1 = []

section

variable {graph graph' : TypeGraph} {first second : Implementor}
variable {check check' : InterfaceType → List String →
  List TypeError × List String}

/- One interface is checked in both graphs. -/
theorem checkOne_clears
    (h : graph.Covers graph')
    (hCheck : ∀ interface interface' verified,
      interface.shape.Covers interface'.shape →
      Clears (check interface verified)
        (check' interface' verified))
    (name : String)
    (verified : List String) :
    Clears (checkOne graph first check name verified)
      (checkOne graph' second check' name verified) := by
  have hFound := h.lookup name
  unfold checkOne
  generalize graph.lookup name = found at hFound ⊢
  generalize graph'.lookup name = found' at hFound ⊢
  cases hFound with
  | none => exact ⟨rfl, fun hErrors => nomatch hErrors⟩
  | some hTypes =>
      cases hTypes with
      | builtin => exact ⟨rfl, fun hErrors => nomatch hErrors⟩
      | defined hTypes =>
          cases hTypes with
          | interface _ hShape => exact hCheck _ _ verified hShape
          | _ => exact ⟨rfl, fun hErrors => nomatch hErrors⟩

/- Names are checked in both graphs one after another. -/
theorem checkEach_clears
    (hOne : ∀ name verified,
      Clears (checkOne graph first check name verified)
        (checkOne graph' second check' name verified))
    (names verified : List String) :
    Clears (checkEach graph first check names verified)
      (checkEach graph' second check' names verified) := by
  induction names generalizing verified with
  | nil => exact ⟨rfl, fun _ => rfl⟩
  | cons name rest ih =>
      by_cases hKnown : name ∈ verified
      · rw [checkEach, if_pos (by simpa using hKnown),
          checkEach, if_pos (by simpa using hKnown)]
        exact ih verified
      · rw [checkEach_cons hKnown, checkEach_cons hKnown]
        have hNow := hOne name (name :: verified)
        have hLater :=
          ih (checkOne graph first check name (name :: verified)).2
        rw [hNow.verified_eq] at hLater
        refine ⟨?_, ?_⟩
        · simpa only [hNow.verified_eq] using hLater.verified_eq
        · simp only [hNow.verified_eq, List.append_eq_nil_iff]
          intro hErrors
          exact ⟨hNow.eq_nil hErrors.1, hLater.eq_nil hErrors.2⟩

/- The interfaces at the end of a path are checked. -/
theorem checkDeclared_clears
    (h : graph.Covers graph')
    (hShape : first.shape.Covers second.shape)
    (depth : Nat)
    {declared declared' : List String}
    (hDeclared : declared.Perm declared')
    (path path' verified : List String) :
    Clears
      (checkDeclared graph first depth declared path verified)
      (checkDeclared graph' second depth declared' path'
        verified) := by
  induction depth generalizing declared declared' path path'
    verified with
  | zero => exact ⟨rfl, fun _ => rfl⟩
  | succ depth ih =>
      unfold checkDeclared
      rw [sorted_eq_of_perm hDeclared]
      apply checkEach_clears
      apply checkOne_clears h
      intro interface interface' verified hInterface
      have hNested := ih hInterface.interfaces
        (path ++ [interface.name]) (path' ++ [interface'.name])
        verified
      refine ⟨hNested.verified_eq, ?_⟩
      simp only [List.append_eq_nil_iff]
      rintro ⟨⟨hMissing, hErrors⟩, hFields⟩
      exact
        ⟨⟨missingErrors_eq_nil hInterface hDeclared hMissing,
          hNested.eq_nil hErrors⟩,
          shapeErrors_eq_nil h hShape hInterface hFields⟩

theorem interfaceErrors_eq_nil
    (h : graph.Covers graph')
    (hShape : first.shape.Covers second.shape)
    (hNone : first.interfaceErrors graph = []) :
    second.interfaceErrors graph' = [] := by
  unfold interfaceErrors at hNone ⊢
  rw [← h.size_eq]
  exact (checkDeclared_clears h hShape _ hShape.interfaces
    [] [] []).eq_nil hNone

end

end Implementor

------------------------------------------------------------
-- Cycles
------------------------------------------------------------

/- Chains of required fields are the same in both graphs. -/
theorem InputObjectType.cyclesFrom_eq_nil
    {graph graph' : TypeGraph}
    (h : graph.Covers graph')
    (depth : Nat)
    {type type' : String}
    {fields fields' : Entries InputValue}
    (hFields : Entries.Covers InputValue.Covers fields fields')
    {path path' : List String}
    (visiting : List String)
    (hNone :
      cyclesFrom graph depth type fields path visiting = []) :
    cyclesFrom graph' depth type' fields' path' visiting =
      [] := by
  induction depth generalizing type type' fields fields' path
    path' visiting with
  | zero => rfl
  | succ depth ih =>
      unfold cyclesFrom at hNone ⊢
      rw [List.flatMap_eq_nil_iff] at hNone ⊢
      rintro ⟨name, field'⟩ hField'
      rcases hFields.exists_mem _ hField' with
        ⟨field, hField, hCovers⟩
      have hRequired :
          required? field'.type = required? field.type := by
        rw [← TypeRef.required?_bare, ← hCovers.type_eq,
          TypeRef.required?_bare]
      have hLeads := hNone _ hField
      simp only [hRequired] at hLeads ⊢
      cases hTarget : required? field.type with
      | none => rfl
      | some target =>
          simp only [hTarget] at hLeads ⊢
          split at hLeads
          · cases hLeads
          · next hNew =>
              rw [if_neg hNew]
              have hFound := h.lookup target
              generalize graph.lookup target = found
                at hFound hLeads
              generalize graph'.lookup target = found'
                at hFound ⊢
              cases hFound with
              | none => rfl
              | some hTypes =>
                  cases hTypes with
                  | builtin => rfl
                  | defined hTypes =>
                      cases hTypes with
                      | inputObject _ hNext =>
                          exact ih hNext _ hLeads
                      | _ => rfl

------------------------------------------------------------
-- Validity
------------------------------------------------------------

namespace TypeGraph

variable {graph graph' : TypeGraph}

theorem Covers.implementorErrors_eq_nil
    (h : graph.Covers graph')
    {first second : Implementor}
    (hShape : first.shape.Covers second.shape)
    (hNone : graph.implementorErrors first = []) :
    graph'.implementorErrors second = [] := by
  simp only [implementorErrors, List.append_eq_nil_iff,
    List.flatMap_eq_nil_iff] at hNone ⊢
  refine
    ⟨Implementor.interfaceErrors_eq_nil h hShape hNone.1, ?_⟩
  intro entry hEntry
  rcases hShape.fields.exists_mem entry hEntry with
    ⟨field, hField, hCovers⟩
  exact h.fieldErrors_eq_nil hCovers (hNone.2 _ hField)

theorem Covers.inputObjectErrors_eq_nil
    (h : graph.Covers graph')
    {first second : InputObjectType}
    (hName : first.name = second.name)
    (hFields : Entries.Covers InputValue.Covers first.fields
      second.fields)
    (hNone : graph.inputObjectErrors first = []) :
    graph'.inputObjectErrors second = [] := by
  simp only [inputObjectErrors, List.append_eq_nil_iff,
    List.flatMap_eq_nil_iff, InputObjectType.cycleErrors]
    at hNone ⊢
  rw [← h.size_eq, ← hName]
  refine
    ⟨?_, InputObjectType.cyclesFrom_eq_nil h _ hFields _ hNone.2⟩
  intro entry hEntry
  rcases hFields.exists_mem entry hEntry with
    ⟨field, hField, hCovers⟩
  exact h.inputFieldErrors_eq_nil hCovers (hNone.1 _ hField)

/- A type that is covered has errors only if the other has. -/
theorem Covers.typeErrors_eq_nil
    (h : graph.Covers graph')
    {type type' : NamedType}
    (hCovers : type.Covers type')
    (hNone : graph.typeErrors type = []) :
    graph'.typeErrors type' = [] := by
  cases hCovers with
  | builtin => rfl
  | defined hTypes =>
      cases hTypes with
      | object _ hShape =>
          exact h.implementorErrors_eq_nil hShape hNone
      | interface _ hShape =>
          exact h.implementorErrors_eq_nil hShape hNone
      | union _ hListed =>
          simp only [typeErrors, List.filterMap_eq_nil_iff]
            at hNone ⊢
          intro member hMember
          have hMembers := UnionType.members_perm hListed
          exact h.memberError?_eq_none
            (hNone member (hMembers.mem_iff.2 hMember))
      | enum _ _ _ => rfl
      | scalar _ => rfl
      | inputObject hName hFields =>
          exact h.inputObjectErrors_eq_nil hName hFields hNone

theorem validate_eq_ok_iff :
    graph.validate = .ok () ↔
      graph.flawed? = none ∧ graph.errors = [] := by
  unfold validate
  cases graph.flawed? with
  | some error => simp
  | none => simp

/- A graph that is covered is valid if the other one is. -/
theorem Covers.validate_eq_ok
    (h : graph.Covers graph')
    (hValid : graph.validate = .ok ()) :
    graph'.validate = .ok () := by
  rw [validate_eq_ok_iff] at hValid ⊢
  refine ⟨h.flawed?_eq_none hValid.1, ?_⟩
  have hErrors := hValid.2
  unfold errors at hErrors ⊢
  rw [List.flatMap_eq_nil_iff] at hErrors ⊢
  intro type' hType'
  rcases h.exists_of_mem hType' with ⟨type, hType, hCovers⟩
  exact h.typeErrors_eq_nil hCovers (hErrors type hType)

/- Graphs that match are both valid, or none is. -/
theorem Matches.same_validate (h : graph.Matches graph') :
    Results.Same Eq graph.validate graph'.validate := by
  apply Results.Same.of_ok_iff
  rintro ⟨⟩
  exact
    ⟨h.covers.validate_eq_ok,
      (matches_equivalence.symm h).covers.validate_eq_ok⟩

end TypeGraph

end GraphQL
