import GraphQL.Schema.Protection
import GraphQL.Proofs.Schema.Covers
import GraphQL.Proofs.Schema.SchemaText

/-
  What decorators have to leave as it is.

  Whatever passes the check retains all that schema text
  declares, so it has all that validation asks of what the text
  declares. A resolver that a field has is retained wherever
  the field comes from.

  Key definitions include:
    * `InputValue.Retains`, `OutputField.Retains`
    * `Entries.Retains`: the same names, with what is retained
    * `TypeDef.Retains`

  Main declarations:
    * `Protection.keepsField_of_checkFields`
    * `Protection.retains_of_check`
    * `TypeDef.Retains.covers`
-/

------------------------------------------------------------
-- Arguments And Input Fields
------------------------------------------------------------

namespace GraphQL

/-
  An argument or input field as another one is declared.
  Locations of types do not count, and floats in defaults are
  compared by value.
-/
structure InputValue.Retains (kept given : InputValue) :
    Prop where
  name_eq : kept.name = given.name
  type_eq : kept.type.bare = given.type.bare
  default : Literal.sameOption given.default kept.default = true
  description_eq : kept.description = given.description

theorem InputValue.same_iff_retains (given kept : InputValue) :
    given.same kept = true ↔ kept.Retains given := by
  unfold InputValue.same
  simp only [Bool.and_eq_true, beq_iff_eq, TypeRef.same_iff]
  constructor
  · rintro ⟨⟨⟨hName, hType⟩, hDefault⟩, hDescription⟩
    exact
      ⟨hName.symm, hType.symm, hDefault, hDescription.symm⟩
  · rintro ⟨hName, hType, hDefault, hDescription⟩
    exact
      ⟨⟨⟨hName.symm, hType.symm⟩, hDefault⟩,
        hDescription.symm⟩

theorem InputValue.Retains.covers
    {kept given : InputValue}
    (h : kept.Retains given) : kept.Covers given := by
  refine ⟨h.name_eq, h.type_eq, ?_⟩
  have hDefault := h.default
  cases hGiven : given.default with
  | none =>
      cases hKept : kept.default with
      | none => rfl
      | some literal =>
          rw [hGiven, hKept] at hDefault
          cases hDefault
  | some literal =>
      cases hKept : kept.default with
      | none =>
          rw [hGiven, hKept] at hDefault
          cases hDefault
      | some literal' => rfl

------------------------------------------------------------
-- Entries
------------------------------------------------------------

/-
  Every entry that is given is found under its name with what
  is retained, and there are no further names.
-/
structure Entries.Retains
    {α : Type}
    (Retain : α → α → Prop)
    (kept given : Entries α) : Prop where
  found : ∀ entry ∈ given, ∃ value,
    Entries.get? kept entry.1 = some value ∧
      Retain value entry.2
  known : ∀ name ∈ Entries.names kept, name ∈ Entries.names given

namespace Entries

variable {α : Type} {Retain Cover : α → α → Prop}
variable {kept given : Entries α}

/- What is found under a name is retained. -/
theorem Retains.rel_get?
    (h : Retains Retain kept given)
    (name : String) :
    Option.Rel Retain (kept.get? name) (given.get? name) := by
  cases hGiven : given.get? name with
  | some value =>
      rcases h.found _ (mem_of_get? hGiven) with
        ⟨value', hKept, hRetain⟩
      rw [hKept]
      exact .some hRetain
  | none =>
      have hNew : name ∉ kept.names := fun hMem =>
        (Declared.get?_eq_none_iff given name).1 hGiven
          (h.known name hMem)
      rw [(Declared.get?_eq_none_iff kept name).2 hNew]
      exact .none

theorem Retains.covers
    (h : Retains Retain kept given)
    (hCover : ∀ value value', Retain value value' →
      Cover value value') :
    Covers Cover kept given where
  exists_mem entry hEntry := by
    rcases h.found entry hEntry with ⟨value, hKept, hRetain⟩
    exact ⟨value, mem_of_get? hKept, hCover _ _ hRetain⟩
  get? name := optionRel_imp hCover (h.rel_get? name)

/- The same names in the same order cover each other. -/
theorem covers_of_forall₂
    (h : List.Forall₂
      (fun entry entry' : String × α =>
        entry.1 = entry'.1 ∧ Cover entry.2 entry'.2)
      kept given) :
    Covers Cover kept given := by
  induction h with
  | nil => exact ⟨by simp, fun _ => .none⟩
  | @cons entry entry' rest rest' hEntry _ ih =>
      rcases entry with ⟨name, value⟩
      rcases entry' with ⟨_, value'⟩
      rcases hEntry with ⟨rfl, hCover⟩
      refine ⟨?_, fun other => ?_⟩
      · intro given hGiven
        rcases List.mem_cons.1 hGiven with rfl | hRest
        · exact ⟨value, List.mem_cons_self, hCover⟩
        · rcases ih.exists_mem given hRest with
            ⟨value, hValue, hCover⟩
          exact ⟨value, List.mem_cons_of_mem _ hValue, hCover⟩
      · unfold Entries.get?
        split
        · exact .some hCover
        · exact ih.get? other

end Entries

------------------------------------------------------------
-- Fields And Values
------------------------------------------------------------

/- A field as another one is declared. -/
structure OutputField.Retains (kept given : OutputField) :
    Prop where
  name_eq : kept.name = given.name
  type_eq : kept.type.bare = given.type.bare
  arguments : List.Forall₂
    (fun entry entry' : String × InputValue =>
      entry.1 = entry'.1 ∧ entry.2.Retains entry'.2)
    kept.arguments given.arguments
  description_eq : kept.description = given.description
  deprecation_eq : kept.deprecation = given.deprecation

theorem OutputField.Retains.covers
    {kept given : OutputField}
    (h : kept.Retains given) : kept.Covers given :=
  ⟨h.name_eq, h.type_eq, Entries.covers_of_forall₂
    (h.arguments.imp fun _ _ hEntry =>
      ⟨hEntry.1, hEntry.2.covers⟩)⟩

/- A body as another one is declared. -/
structure FieldShape.Retains (kept given : FieldShape) :
    Prop where
  fields :
    Entries.Retains OutputField.Retains kept.fields given.fields
  interfaces_eq : kept.interfaces = given.interfaces

theorem FieldShape.Retains.covers
    {kept given : FieldShape}
    (h : kept.Retains given) : kept.Covers given :=
  ⟨h.fields.covers fun _ _ hField => hField.covers,
    .of_eq h.interfaces_eq⟩

/- A value of an enum as another one is declared. -/
structure EnumValue.Retains (kept given : EnumValue) :
    Prop where
  description_eq : kept.description = given.description
  deprecation_eq : kept.deprecation = given.deprecation

/- Values by name. -/
def EnumValue.entries (values : List EnumValue) :
    Entries EnumValue :=
  values.map fun value => (value.name, value)

@[simp]
theorem EnumValue.names_entries (values : List EnumValue) :
    (entries values).names = values.map EnumValue.name := by
  simp [entries, Entries.names, Function.comp_def]

theorem EnumValue.get?_entries
    (values : List EnumValue)
    (name : String) :
    (entries values).get? name =
      values.find? fun value => value.name == name := by
  induction values with
  | nil => rfl
  | cons value rest ih =>
      by_cases hName : value.name = name
      · simp [entries, Entries.get?, hName]
      · simpa [entries, Entries.get?, hName] using ih

------------------------------------------------------------
-- Types
------------------------------------------------------------

/- A header as another one is declared. -/
structure TypeHeader.Retains (kept given : TypeHeader) :
    Prop where
  name_eq : kept.name = given.name
  description_eq : kept.description = given.description

/-
  A type as another one of its kind is declared. Hooks, internal
  values, metadata and the coercions of scalars may differ.
-/
inductive TypeDef.Retains : TypeDef → TypeDef → Prop where
  | object {kept given : ObjectType} :
      kept.header.Retains given.header →
      kept.shape.Retains given.shape →
      Retains (.object kept) (.object given)
  | interface {kept given : InterfaceType} :
      kept.header.Retains given.header →
      kept.shape.Retains given.shape →
      Retains (.interface kept) (.interface given)
  | union {kept given : UnionType} :
      kept.header.Retains given.header →
      kept.listed = given.listed →
      Retains (.union kept) (.union given)
  | enum {kept given : EnumType} :
      kept.header.Retains given.header →
      Entries.Retains EnumValue.Retains
        (EnumValue.entries kept.values)
        (EnumValue.entries given.values) →
      Retains (.enum kept) (.enum given)
  | scalar {kept given : ScalarType} :
      kept.header.Retains given.header →
      Retains (.scalar kept) (.scalar given)
  | inputObject {kept given : InputObjectType} :
      kept.header.Retains given.header →
      Entries.Retains InputValue.Retains kept.fields
        given.fields →
      Retains (.inputObject kept) (.inputObject given)

/- What is retained of schema text is what validation asks. -/
theorem TypeDef.Retains.covers
    {kept given : TypeDef}
    (h : kept.Retains given)
    (hText : given.InText) : kept.Covers given := by
  cases h with
  | object hHeader hShape =>
      exact .object hHeader.name_eq hShape.covers
  | interface hHeader hShape =>
      exact .interface hHeader.name_eq hShape.covers
  | union hHeader hListed =>
      exact .union hHeader.name_eq (.of_eq hListed)
  | @enum kept given hHeader hValues =>
      cases hText with
      | enum _ hText =>
          have hContains :=
            (hValues.covers fun _ _ hValue => hValue).contains_eq
          refine .enum hHeader.name_eq (fun name => ?_)
            fun _ => hText.nodup_names
          rw [← EnumValue.names_entries,
            ← EnumValue.names_entries,
            ← Entries.contains_iff_mem_names, hContains,
            Entries.contains_iff_mem_names]
  | scalar hHeader => exact .scalar hHeader.name_eq
  | inputObject hHeader hFields =>
      exact .inputObject hHeader.name_eq
        (hFields.covers fun _ _ hField => hField.covers)

------------------------------------------------------------
-- Checks
------------------------------------------------------------

namespace Protection

@[simp]
theorem require_eq_ok_iff
    {condition : Bool}
    {error : BuildError}
    {done : Unit} :
    require condition error = .ok done ↔ condition = true := by
  unfold require
  split
  · next hHolds => simp [hHolds]
  · next hFails => simp [hFails]

theorem sameArguments_iff (given kept : Entries InputValue) :
    sameArguments given kept = true ↔
      List.Forall₂
        (fun entry entry' : String × InputValue =>
          entry.1 = entry'.1 ∧ entry.2.Retains entry'.2)
        kept given := by
  induction given generalizing kept with
  | nil => cases kept <;> simp [sameArguments]
  | cons entry rest ih =>
      cases kept with
      | nil => simp [sameArguments]
      | cons entry' rest' =>
          simp only [sameArguments, Bool.and_eq_true,
            beq_iff_eq, InputValue.same_iff_retains, ih,
            List.forall₂_cons]
          rw [eq_comm]

/- What a declared field has to retain. -/
theorem checkDeclaredField_eq_ok_iff
    {type name : String}
    {given kept : OutputField} :
    checkDeclaredField type name given kept = .ok () ↔
      kept.Retains given := by
  simp only [checkDeclaredField, Results.bind_eq_ok_iff,
    require_eq_ok_iff, beq_iff_eq, TypeRef.same_iff,
    sameArguments_iff]
  constructor
  · rintro ⟨-, hName, -, hType, -, hArguments, -, hDescription,
      hDeprecation⟩
    exact
      ⟨hName.symm, hType.symm, hArguments, hDescription.symm,
        hDeprecation.symm⟩
  · rintro ⟨hName, hType, hArguments, hDescription,
      hDeprecation⟩
    exact
      ⟨(), hName.symm, (), hType.symm, (), hArguments, (),
        hDescription.symm, hDeprecation.symm⟩

/- What a field retains: its resolver wherever it stands. -/
structure KeepsField (kept given : OutputField) : Prop where
  retains : given.location.isSdl = true → kept.Retains given
  resolver : given.resolver.isSome = true →
    kept.resolver = given.resolver

theorem checkField_eq_ok_iff
    {type name : String}
    {given kept : OutputField} :
    checkField type name given kept = .ok () ↔
      KeepsField kept given := by
  have hResolver :
      (if given.resolver.isSome then
          require (kept.resolver == given.resolver)
            (.resolverReplaced type name)
        else pure ()) = .ok () ↔
        (given.resolver.isSome = true →
          kept.resolver = given.resolver) := by
    by_cases hSome : given.resolver.isSome = true
    · simp [hSome]
    · simp [hSome, pure, Except.pure]
  unfold checkField
  by_cases hText : given.location.isSdl = true
  · simp only [hText, if_true]
    rw [Results.bind_eq_ok_iff]
    constructor
    · rintro ⟨⟨⟩, hDeclared, hRest⟩
      exact
        ⟨fun _ => checkDeclaredField_eq_ok_iff.1 hDeclared,
          hResolver.1 hRest⟩
    · intro hKeeps
      exact
        ⟨(),
          checkDeclaredField_eq_ok_iff.2 (hKeeps.retains hText),
          hResolver.2 hKeeps.resolver⟩
  · rw [if_neg hText, hResolver]
    exact
      ⟨fun hKept => ⟨fun hHere => absurd hHere hText, hKept⟩,
        KeepsField.resolver⟩

theorem checkKnown_eq_ok_iff
    {α : Type}
    {type : String}
    {given : Entries α}
    {names : List String}
    {done : Unit} :
    checkKnown type given names = .ok done ↔
      ∀ name ∈ names, name ∈ given.names := by
  unfold checkKnown
  simp only [Results.forM_eq_ok_iff, require_eq_ok_iff,
    Entries.contains_iff_mem_names]

/- Fields are all there, each with what it has to retain. -/
theorem keepsField_of_checkFields
    {type : String}
    {expected : List String}
    {given kept : Entries OutputField}
    (h : checkFields type expected given kept = .ok ()) :
    Entries.Retains KeepsField kept given := by
  unfold checkFields at h
  simp only [Results.bind_eq_ok_iff, checkKnown_eq_ok_iff,
    Results.forM_eq_ok_iff] at h
  rcases h with ⟨-, -, -, hKnown, hFields⟩
  refine ⟨fun entry hEntry => ?_, hKnown⟩
  have hCheck := hFields entry hEntry
  split at hCheck
  · next found hFound =>
      exact ⟨found, hFound, checkField_eq_ok_iff.1 hCheck⟩
  · cases hCheck

/- Fields in schema text are retained as they are declared. -/
theorem retains_of_checkFields
    {type : String}
    {expected : List String}
    {given kept : Entries OutputField}
    (h : checkFields type expected given kept = .ok ())
    (hText : given.InText OutputField.location) :
    Entries.Retains OutputField.Retains kept given := by
  have hKeeps := keepsField_of_checkFields h
  refine ⟨fun entry hEntry => ?_, hKeeps.known⟩
  rcases hKeeps.found entry hEntry with ⟨found, hFound, hField⟩
  exact ⟨found, hFound, hField.retains (hText entry hEntry)⟩

/- Input fields in schema text are retained. -/
theorem retains_of_checkInputFields
    {type : String}
    {given kept : Entries InputValue}
    (h : checkInputFields type given kept = .ok ())
    (hText : given.InText InputValue.location) :
    Entries.Retains InputValue.Retains kept given := by
  unfold checkInputFields at h
  simp only [Results.bind_eq_ok_iff, checkKnown_eq_ok_iff,
    Results.forM_eq_ok_iff] at h
  rcases h with ⟨-, hKnown, hFields⟩
  refine ⟨fun entry hEntry => ?_, hKnown⟩
  have hCheck := hFields entry hEntry
  split at hCheck
  · next found hFound =>
      simp only [require_eq_ok_iff, hText entry hEntry,
        Bool.not_true, Bool.false_or,
        InputValue.same_iff_retains] at hCheck
      exact ⟨found, hFound, hCheck⟩
  · cases hCheck

/- Values in schema text are retained. -/
theorem retains_of_checkValues
    {type : String}
    {given kept : List EnumValue}
    (h : checkValues type given kept = .ok ())
    (hText : EnumValue.InText given) :
    Entries.Retains EnumValue.Retains (EnumValue.entries kept)
      (EnumValue.entries given) := by
  unfold checkValues at h
  simp only [Results.bind_eq_ok_iff, Results.forM_eq_ok_iff]
    at h
  rcases h with ⟨-, hKnown, hValues⟩
  constructor
  · intro entry hEntry
    rcases List.mem_map.1 hEntry with ⟨value, hValue, rfl⟩
    rw [EnumValue.get?_entries]
    have hCheck := hValues value hValue
    split at hCheck
    · next found hFound =>
        simp only [checkValue, hText.location value hValue,
          if_true, Results.bind_eq_ok_iff, require_eq_ok_iff,
          beq_iff_eq] at hCheck
        rcases hCheck with ⟨-, hDescription, hDeprecation⟩
        exact
          ⟨found, hFound, hDescription.symm, hDeprecation.symm⟩
    · cases hCheck
  · intro name hName
    rw [EnumValue.names_entries] at hName ⊢
    rcases List.mem_map.1 hName with ⟨value, hValue, rfl⟩
    have hSome := hKnown value hValue
    rw [require_eq_ok_iff, List.any_eq_true] at hSome
    rcases hSome with ⟨known, hMem, hSame⟩
    exact List.mem_map.2 ⟨known, hMem, by simpa using hSame⟩

/- The body of a type in schema text is retained. -/
theorem retains_of_checkShape
    {type : String}
    {expected : List String}
    {given kept : FieldShape}
    (h : checkShape type true expected given kept = .ok ())
    (hText : given.fields.InText OutputField.location) :
    kept.Retains given := by
  simp only [checkShape, Results.bind_eq_ok_iff,
    require_eq_ok_iff, Bool.not_true, Bool.false_or,
    beq_iff_eq] at h
  rcases h with ⟨-, hInterfaces, hFields⟩
  exact ⟨retains_of_checkFields hFields hText, hInterfaces.symm⟩

/- A type in schema text is retained as it is declared. -/
theorem retains_of_check
    {expected : List String}
    {given kept : TypeDef}
    (h : check expected given kept = .ok ())
    (hText : given.InText) : kept.Retains given := by
  simp only [check, Results.bind_eq_ok_iff, require_eq_ok_iff,
    hText.location_isSdl, Bool.not_true, Bool.false_or,
    beq_iff_eq] at h
  rcases h with ⟨-, hKind, -, hName, -, hDescription, hBody⟩
  have hHeader : kept.header.Retains given.header :=
    ⟨hName.symm, hDescription.symm⟩
  unfold checkBody at hBody
  simp only [hText.location_isSdl] at hBody
  cases hText with
  | object _ hFields =>
      cases kept <;> cases hKind
      exact .object hHeader
        (retains_of_checkShape hBody hFields)
  | interface _ hFields =>
      cases kept <;> cases hKind
      exact .interface hHeader
        (retains_of_checkShape hBody hFields)
  | union _ =>
      cases kept <;> cases hKind
      simp only [require_eq_ok_iff, Bool.not_true,
        Bool.false_or, beq_iff_eq] at hBody
      exact .union hHeader hBody.symm
  | enum _ hValues =>
      cases kept <;> cases hKind
      exact .enum hHeader (retains_of_checkValues hBody hValues)
  | scalar _ =>
      cases kept <;> cases hKind
      exact .scalar hHeader
  | inputObject _ hFields =>
      cases kept <;> cases hKind
      exact .inputObject hHeader
        (retains_of_checkInputFields hBody hFields)

end Protection

/- A type is decorated exactly if what comes back is checked. -/
theorem Decorator.apply_eq_ok_iff
    {decorator : Decorator}
    {given kept : TypeDef} :
    decorator.apply given = .ok kept ↔
      Protection.check (decorator.fields given.name) given kept =
          .ok () ∧
        kept = decorator.decorate given := by
  unfold Decorator.apply
  constructor
  · intro h
    rcases Results.bind_eq_ok_iff.1 h with ⟨⟨⟩, hCheck, hKept⟩
    cases hKept
    exact ⟨hCheck, rfl⟩
  · rintro ⟨hCheck, rfl⟩
    exact Results.bind_eq_ok_iff.2 ⟨(), hCheck, rfl⟩

end GraphQL
