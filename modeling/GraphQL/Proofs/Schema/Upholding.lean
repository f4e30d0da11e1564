import GraphQL.Proofs.Schema.Protection

/-
  What stands in schema text, and what becomes of it.

  An element of schema text is marked by its place and by the
  directives that are applied to it there. A type upholds an
  earlier one if whatever of the earlier one stands in text is
  found with the same marks and in the same order, and is
  declared as before. Extensions uphold what they extend.

  Key definitions include:
    * `Mark`
    * `Entries.Upholds`
    * `TypeDef.Upholds`

  Main declarations:
    * `TypeDef.Upholds.trans`
    * `TypeDef.Extends.upholds`
-/

------------------------------------------------------------
-- Equal Literals
------------------------------------------------------------

namespace GraphQL

theorem Binary64.same_refl (x : Binary64) :
    x.same x = true := by
  simp [same]

theorem Binary64.same_trans
    {x y z : Binary64}
    (h : x.same y = true)
    (h' : y.same z = true) : x.same z = true := by
  simp only [same, Bool.or_eq_true, Bool.and_eq_true,
    beq_iff_eq] at h h' ⊢
  rcases h with ⟨hFirst, hSecond⟩ | rfl
  · rcases h' with ⟨-, hThird⟩ | rfl
    · exact .inl ⟨hFirst, hThird⟩
    · exact .inl ⟨hFirst, hSecond⟩
  · exact h'

namespace Literal

open Binary64 (Extended)

mutual

theorem same_refl : ∀ literal : Literal,
    literal.same literal = true
| .variable _ => by simp [same]
| .int _ => by simp [same]
| .float (.finite value) => value.same_refl
| .float (.infinite _) => by simp [same, Extended.same]
| .string _ => by simp [same]
| .boolean _ => by simp [same]
| .null => rfl
| .enum _ => by simp [same]
| .list items => sameItems_refl items
| .object entries => sameEntries_refl entries

theorem sameItems_refl : ∀ items : List Literal,
    sameItems items items = true
| [] => rfl
| item :: rest => by
    simp [sameItems, same_refl item, sameItems_refl rest]

theorem sameEntries_refl : ∀ entries : List (String × Literal),
    sameEntries entries entries = true
| [] => rfl
| (_, value) :: rest => by
    simp [sameEntries, same_refl value, sameEntries_refl rest]

end

mutual

theorem same_trans : ∀ {first second third : Literal},
    first.same second = true → second.same third = true →
    first.same third = true
| .variable _, .variable _, .variable _, h, h' => by
    simp_all [same]
| .int _, .int _, .int _, h, h' => by simp_all [same]
| .float (.finite _), .float (.finite _),
    .float (.finite _), h, h' => Binary64.same_trans h h'
| .float (.infinite _), .float (.infinite _),
    .float (.infinite _), h, h' => by
    simp_all [same, Extended.same]
| .string _, .string _, .string _, h, h' => by
    simp_all [same]
| .boolean _, .boolean _, .boolean _, h, h' => by
    simp_all [same]
| .null, .null, .null, _, _ => rfl
| .enum _, .enum _, .enum _, h, h' => by simp_all [same]
| .list _, .list _, .list _, h, h' => sameItems_trans h h'
| .object _, .object _, .object _, h, h' =>
    sameEntries_trans h h'

theorem sameItems_trans : ∀ {first second third : List Literal},
    sameItems first second = true →
    sameItems second third = true →
    sameItems first third = true
| [], [], [], _, _ => rfl
| a :: as, b :: bs, c :: cs, h, h' => by
    simp only [sameItems, Bool.and_eq_true] at h h' ⊢
    exact
      ⟨same_trans h.1 h'.1, sameItems_trans h.2 h'.2⟩

theorem sameEntries_trans :
    ∀ {first second third : List (String × Literal)},
    sameEntries first second = true →
    sameEntries second third = true →
    sameEntries first third = true
| [], [], [], _, _ => rfl
| (_, a) :: as, (_, b) :: bs, (_, c) :: cs, h, h' => by
    simp only [sameEntries, Bool.and_eq_true, beq_iff_eq]
      at h h' ⊢
    exact
      ⟨⟨h.1.1.trans h'.1.1, same_trans h.1.2 h'.1.2⟩,
        sameEntries_trans h.2 h'.2⟩

end

theorem sameOption_refl (literal? : Option Literal) :
    sameOption literal? literal? = true := by
  cases literal? with
  | none => rfl
  | some literal => exact literal.same_refl

theorem sameOption_trans
    {first second third : Option Literal}
    (h : sameOption first second = true)
    (h' : sameOption second third = true) :
    sameOption first third = true := by
  cases first <;> cases second <;> cases third <;>
    simp_all [sameOption]
  exact same_trans h h'

end Literal

------------------------------------------------------------
-- What A Check Retains
------------------------------------------------------------

theorem InputValue.Retains.refl (value : InputValue) :
    value.Retains value :=
  ⟨rfl, rfl, Literal.sameOption_refl _, rfl⟩

theorem InputValue.Retains.trans
    {last next value : InputValue}
    (h : last.Retains next)
    (h' : next.Retains value) : last.Retains value where
  name_eq := h.name_eq.trans h'.name_eq
  type_eq := h.type_eq.trans h'.type_eq
  default := Literal.sameOption_trans h'.default h.default
  description_eq := h.description_eq.trans h'.description_eq

/- The same arguments in the same order are themselves so. -/
private theorem retainsArguments_trans
    {last next entries : Entries InputValue}
    (h : List.Forall₂
      (fun entry entry' : String × InputValue =>
        entry.1 = entry'.1 ∧ entry.2.Retains entry'.2)
      last next)
    (h' : List.Forall₂
      (fun entry entry' : String × InputValue =>
        entry.1 = entry'.1 ∧ entry.2.Retains entry'.2)
      next entries) :
    List.Forall₂
      (fun entry entry' : String × InputValue =>
        entry.1 = entry'.1 ∧ entry.2.Retains entry'.2)
      last entries := by
  induction h generalizing entries with
  | nil =>
      cases h'
      exact .nil
  | cons hEntry _ ih =>
      cases h' with
      | cons hEntry' hRest' =>
          exact .cons
            ⟨hEntry.1.trans hEntry'.1,
              hEntry.2.trans hEntry'.2⟩
            (ih hRest')

theorem OutputField.Retains.refl (field : OutputField) :
    field.Retains field :=
  ⟨rfl, rfl,
    List.forall₂_same.2 fun _ _ => ⟨rfl, .refl _⟩, rfl, rfl⟩

theorem OutputField.Retains.trans
    {last next field : OutputField}
    (h : last.Retains next)
    (h' : next.Retains field) : last.Retains field where
  name_eq := h.name_eq.trans h'.name_eq
  type_eq := h.type_eq.trans h'.type_eq
  arguments := retainsArguments_trans h.arguments h'.arguments
  description_eq := h.description_eq.trans h'.description_eq
  deprecation_eq := h.deprecation_eq.trans h'.deprecation_eq

theorem EnumValue.Retains.refl (value : EnumValue) :
    value.Retains value :=
  ⟨rfl, rfl⟩

theorem EnumValue.Retains.trans
    {last next value : EnumValue}
    (h : last.Retains next)
    (h' : next.Retains value) : last.Retains value where
  description_eq := h.description_eq.trans h'.description_eq
  deprecation_eq := h.deprecation_eq.trans h'.deprecation_eq

------------------------------------------------------------
-- Marks
------------------------------------------------------------

/- Where an element stands, and what is applied to it there. -/
structure Mark where
  location : SourceLocation
  directives : List AppliedDirective

/- Whether the element stands in schema text. -/
def Mark.isSdl (mark : Mark) : Bool :=
  mark.location.isSdl

def InputValue.mark (value : InputValue) : Mark :=
  ⟨value.location, value.directives⟩

def OutputField.mark (field : OutputField) : Mark :=
  ⟨field.location, field.directives⟩

def EnumValue.mark (value : EnumValue) : Mark :=
  ⟨value.location, value.directives⟩

namespace Entries

variable {α : Type}

/- The names of entries that stand in schema text, in order. -/
def textNames (mark : α → Mark) (entries : Entries α) :
    List String :=
  names (entries.filter fun entry => (mark entry.2).isSdl)

/-
  What stands in schema text is found under its name with its
  marks, and is upheld; its order is kept.
-/
structure Upholds
    (mark : α → Mark)
    (Uphold : α → α → Prop)
    (kept given : Entries α) : Prop where
  found : ∀ name value, get? given name = some value →
    (mark value).isSdl = true →
    ∃ value', get? kept name = some value' ∧
      mark value' = mark value ∧ Uphold value' value
  order :
    (textNames mark given).Sublist (textNames mark kept)

variable {mark : α → Mark} {Uphold Uphold' : α → α → Prop}
variable {last kept given : Entries α}

theorem Upholds.refl
    (hRefl : ∀ value, Uphold value value)
    (entries : Entries α) :
    Upholds mark Uphold entries entries where
  found _ value hFound _ := ⟨value, hFound, rfl, hRefl value⟩
  order := List.Sublist.refl _

theorem Upholds.trans
    (hTrans : ∀ last next value,
      Uphold last next → Uphold next value →
      Uphold last value)
    (h : Upholds mark Uphold last kept)
    (h' : Upholds mark Uphold kept given) :
    Upholds mark Uphold last given where
  found name value hFound hText := by
    rcases h'.found name value hFound hText with
      ⟨next, hNext, hMark, hUphold⟩
    rcases h.found name next hNext (hMark ▸ hText) with
      ⟨last, hLast, hMark', hUphold'⟩
    exact
      ⟨last, hLast, hMark'.trans hMark,
        hTrans _ _ _ hUphold' hUphold⟩
  order := h'.order.trans h.order

/- New entries come after those that were there. -/
theorem upholds_append
    (hRefl : ∀ value, Uphold value value)
    (entries added : Entries α) :
    Upholds mark Uphold (entries ++ added) entries where
  found name value hFound _ := by
    refine ⟨value, ?_, rfl, hRefl value⟩
    rw [get?_append, hFound, Option.some_or]
  order := by
    simp [textNames, names]

/- Entries that are changed one by one stay where they are. -/
theorem upholds_map
    {f : String → α → α}
    (hMark : ∀ name value, mark (f name value) = mark value)
    (hUphold : ∀ name value, Uphold (f name value) value)
    (entries : Entries α) :
    Upholds mark Uphold
      (entries.map fun entry => (entry.1, f entry.1 entry.2))
      entries where
  found name value hFound _ := by
    refine ⟨f name value, ?_, hMark _ _, hUphold _ _⟩
    induction entries with
    | nil => cases hFound
    | cons entry rest ih =>
        rw [List.map_cons]
        by_cases hName : entry.1 = name
        · simp only [get?, if_pos hName] at hFound ⊢
          cases hFound
          rw [hName]
        · simp only [get?, if_neg hName] at hFound ⊢
          exact ih hFound
  order := by
    simp [textNames, names, List.filter_map, Function.comp_def,
      hMark]

/- What is found on both sides may be known better. -/
theorem Upholds.imp
    (h : Upholds mark Uphold kept given)
    (hImp : ∀ name value' value,
      get? kept name = some value' →
      get? given name = some value →
      (mark value).isSdl = true →
      Uphold value' value → Uphold' value' value) :
    Upholds mark Uphold' kept given where
  found name value hFound hText := by
    rcases h.found name value hFound hText with
      ⟨value', hFound', hMark, hUphold⟩
    exact
      ⟨value', hFound', hMark,
        hImp name value' value hFound' hFound hText hUphold⟩
  order := h.order

end Entries

------------------------------------------------------------
-- Parts Of Types
------------------------------------------------------------

/-
  A field of schema text is declared as before, and so are its
  arguments.
-/
structure OutputField.Upholds (kept given : OutputField) :
    Prop where
  retains : kept.Retains given
  arguments :
    Entries.Upholds InputValue.mark InputValue.Retains
      kept.arguments given.arguments

theorem OutputField.Upholds.refl (field : OutputField) :
    field.Upholds field :=
  ⟨.refl field, .refl .refl field.arguments⟩

theorem OutputField.Upholds.trans
    {last next field : OutputField}
    (h : last.Upholds next)
    (h' : next.Upholds field) : last.Upholds field :=
  ⟨h.retains.trans h'.retains,
    h.arguments.trans (fun _ _ _ => .trans) h'.arguments⟩

namespace TypeDef

/- The fields of an object or interface. -/
def fields : TypeDef → Entries OutputField
| object type => type.shape.fields
| interface type => type.shape.fields
| _ => []

/- The interfaces that an object or interface declares. -/
def interfaces : TypeDef → List String
| object type => type.shape.interfaces
| interface type => type.shape.interfaces
| _ => []

/- The members that a union lists. -/
def members : TypeDef → List String
| union type => type.listed
| _ => []

/- The fields of an input object. -/
def inputFields : TypeDef → Entries InputValue
| inputObject type => type.fields
| _ => []

/- The values of an enum by name. -/
def values : TypeDef → Entries EnumValue
| enum type => EnumValue.entries type.values
| _ => []

/- The address that specifies a scalar. -/
def specifiedBy : TypeDef → Option String
| scalar type => type.specifiedBy
| _ => none

/- What a type of schema text declares itself. -/
structure UpholdsHeader (kept given : TypeDef) : Prop where
  location_eq : kept.location = given.location
  description_eq :
    kept.header.description = given.header.description
  directives :
    given.header.directives <+: kept.header.directives
  interfaces : given.interfaces <+: kept.interfaces
  members : given.members <+: kept.members

/-
  A type that upholds what stands in schema text of another
  one of its kind and name.
-/
structure Upholds (kept given : TypeDef) : Prop where
  kind_eq : kept.kind = given.kind
  name_eq : kept.name = given.name
  header : given.location.isSdl = true →
    kept.UpholdsHeader given
  fields :
    Entries.Upholds OutputField.mark OutputField.Upholds
      kept.fields given.fields
  inputFields :
    Entries.Upholds InputValue.mark InputValue.Retains
      kept.inputFields given.inputFields
  values :
    Entries.Upholds EnumValue.mark EnumValue.Retains
      kept.values given.values
  specifiedBy : ∀ url, given.specifiedBy = some url →
    kept.specifiedBy = some url

variable {last next type : TypeDef}

theorem UpholdsHeader.refl (type : TypeDef) :
    type.UpholdsHeader type :=
  ⟨rfl, rfl, List.prefix_rfl, List.prefix_rfl, List.prefix_rfl⟩

theorem UpholdsHeader.trans
    (h : last.UpholdsHeader next)
    (h' : next.UpholdsHeader type) :
    last.UpholdsHeader type where
  location_eq := h.location_eq.trans h'.location_eq
  description_eq := h.description_eq.trans h'.description_eq
  directives := h'.directives.trans h.directives
  interfaces := h'.interfaces.trans h.interfaces
  members := h'.members.trans h.members

theorem Upholds.refl (type : TypeDef) : type.Upholds type where
  kind_eq := rfl
  name_eq := rfl
  header _ := .refl type
  fields := .refl .refl type.fields
  inputFields := .refl .refl type.inputFields
  values := .refl .refl type.values
  specifiedBy _ hUrl := hUrl

/- What stands in text still stands there, and is upheld. -/
theorem Upholds.trans
    (h : last.Upholds next)
    (h' : next.Upholds type) : last.Upholds type where
  kind_eq := h.kind_eq.trans h'.kind_eq
  name_eq := h.name_eq.trans h'.name_eq
  header hText := by
    have hNext := h'.header hText
    exact (h.header (hNext.location_eq ▸ hText)).trans hNext
  fields := h.fields.trans (fun _ _ _ => .trans) h'.fields
  inputFields :=
    h.inputFields.trans (fun _ _ _ => .trans) h'.inputFields
  values := h.values.trans (fun _ _ _ => .trans) h'.values
  specifiedBy url hUrl :=
    h.specifiedBy url (h'.specifiedBy url hUrl)

------------------------------------------------------------
-- Extensions
------------------------------------------------------------

/- An extension adds to the end of what it extends. -/
theorem Extends.upholds
    {location : SourceLocation}
    {extension : TypeExtension}
    (h : Extends location extension type next) :
    next.Upholds type := by
  have hDirectives : ∀ header : TypeHeader,
      header.directives <+:
        (header.extend location extension).directives :=
    fun _ => List.prefix_append _ _
  cases h with
  | @scalar type hContent =>
      refine
        { Upholds.refl (.scalar type) with
          header := fun _ =>
            ⟨rfl, rfl, hDirectives _, List.prefix_rfl,
              List.prefix_rfl⟩
          specifiedBy := fun url hUrl => ?_ }
      have hFirst : type.specifiedBy = some url := hUrl
      simp [TypeDef.specifiedBy, ScalarType.extend, hFirst]
  | @object type _ _ fields =>
      exact
        { Upholds.refl (.object type) with
          header := fun _ =>
            ⟨rfl, rfl, hDirectives _, List.prefix_append _ _,
              List.prefix_rfl⟩
          fields := Entries.upholds_append .refl _ fields }
  | @interface type _ _ fields =>
      exact
        { Upholds.refl (.interface type) with
          header := fun _ =>
            ⟨rfl, rfl, hDirectives _, List.prefix_append _ _,
              List.prefix_rfl⟩
          fields := Entries.upholds_append .refl _ fields }
  | @union type members =>
      exact
        { Upholds.refl (.union type) with
          header := fun _ =>
            ⟨rfl, rfl, hDirectives _, List.prefix_rfl,
              List.prefix_append _ members⟩ }
  | @enum type definitions =>
      refine
        { Upholds.refl (.enum type) with
          header := fun _ =>
            ⟨rfl, rfl, hDirectives _, List.prefix_rfl,
              List.prefix_rfl⟩
          values := ?_ }
      simp only [TypeDef.values, EnumValue.entries,
        List.map_append]
      exact Entries.upholds_append .refl _ _
  | @inputObject type _ fields =>
      exact
        { Upholds.refl (.inputObject type) with
          header := fun _ =>
            ⟨rfl, rfl, hDirectives _, List.prefix_rfl,
              List.prefix_rfl⟩
          inputFields := Entries.upholds_append .refl _ fields }

end TypeDef

end GraphQL
