import GraphQL.Proofs.Execution.Outcome
import GraphQL.Proofs.Schema.DeclaredArguments

/-
  Types that programs describe.

  A program may describe a type that a document defines, with
  the same fields, arguments, interfaces, members and values. If
  the definition is read, its type has all that validation asks
  of the type described, and the other way around. It is read
  if what it lists is listed properly and the members of the
  type described are well named.

  Key definitions include:
    * `TypeDef.Describes`
    * `TypeDefinition.Orderly`
    * `TypeDef.WellNamed`

  Main declarations:
    * `TypeDef.Describes.covers`
    * `TypeDef.Describes.exists_ofDefinition`
    * `TypeDef.Extends.wellNamed`
-/

------------------------------------------------------------
-- Entries
------------------------------------------------------------

namespace GraphQL

namespace Entries

variable {α β : Type} {Cover : α → α → Prop}
variable {first second : Entries α}

/- Values that cover each other in turn do so both ways. -/
theorem covers_both_of_forall₂
    (h : List.Forall₂
      (fun entry entry' : String × α =>
        entry.1 = entry'.1 ∧ Cover entry.2 entry'.2 ∧
          Cover entry'.2 entry.2)
      first second) :
    Covers Cover first second ∧ Covers Cover second first := by
  constructor
  · apply covers_of_forall₂
    exact h.imp fun _ _ hEntry => ⟨hEntry.1, hEntry.2.1⟩
  · apply covers_of_forall₂
    exact h.flip.imp fun _ _ hEntry =>
      ⟨hEntry.1.symm, hEntry.2.2⟩

/- Entries that are named in turn have those names. -/
theorem names_eq_of_forall₂
    {name : β → String}
    {Relate : String × α → β → Prop}
    {items : List β}
    (h : List.Forall₂
      (fun entry item =>
        entry.1 = name item ∧ Relate entry item)
      first items) : first.names = items.map name := by
  unfold names
  induction h with
  | nil => rfl
  | cons hEntry _ ih =>
      rw [List.map_cons, List.map_cons, hEntry.1, ih]

theorem insert_mapValues
    (f : α → β)
    (entries : Entries α)
    (name : String)
    (value : α) :
    (entries.mapValues f).insert name (f value) =
      (entries.insert name value).mapValues f := by
  induction entries with
  | nil => rfl
  | cons entry rest ih =>
      simp only [mapValues, List.map_cons, insert] at ih ⊢
      split
      · rfl
      · rw [ih, List.map_cons]

/- Values may be changed before or after they are stored. -/
theorem ofList_map
    (f : α → β)
    (pairs : List (String × α)) :
    ofList (pairs.map fun pair => (pair.1, f pair.2)) =
      (ofList pairs).mapValues f := by
  have hAll : ∀ entries : Entries α,
      (entries.mapValues f).insertAll
          (pairs.map fun pair => (pair.1, f pair.2)) =
        (entries.insertAll pairs).mapValues f := by
    induction pairs with
    | nil => exact fun _ => rfl
    | cons pair rest ih =>
        intro entries
        have hNext := ih (entries.insert pair.1 pair.2)
        rw [← insert_mapValues] at hNext
        exact hNext
  exact hAll []

end Entries

------------------------------------------------------------
-- Input Values
------------------------------------------------------------

/- Types are spelled the same wherever they stand. -/
theorem TypeRef.bare_ofExpr
    (location location' : SourceLocation)
    (expr : TypeExpr) :
    (ofExpr location expr).bare = (ofExpr location' expr).bare := by
  have hWith : ∀ nullable,
      (ofExprWith location nullable expr).bare =
        (ofExprWith location' nullable expr).bare := by
    induction expr with
    | named name => exact fun _ => rfl
    | list inner ih =>
        intro nullable
        simp only [ofExprWith, bare, ih true]
    | nonNull inner ih => exact fun _ => ih false
  exact hWith true

/- An argument or input field as it is defined. -/
structure InputValue.Describes
    (value : InputValue)
    (definition : InputValueDefinition) : Prop where
  name_eq : value.name = definition.name
  type_eq : value.type.bare =
    (TypeRef.ofExpr .programmatic definition.type).bare
  default_eq : value.default = definition.default

/- What is described and what is read cover each other. -/
theorem InputValue.Describes.covers
    {value : InputValue}
    {definition : InputValueDefinition}
    (h : value.Describes definition)
    (location : SourceLocation) :
    value.Covers (Declared.inputValue location definition) ∧
      (Declared.inputValue location definition).Covers
        value := by
  have hType : value.type.bare =
      (TypeRef.ofExpr location definition.type).bare :=
    h.type_eq.trans (TypeRef.bare_ofExpr _ _ _)
  have hNone := congrArg Option.isNone h.default_eq
  exact
    ⟨⟨h.name_eq, hType, hNone⟩,
      ⟨h.name_eq.symm, hType.symm, hNone.symm⟩⟩

namespace Declared

/-
  Arguments as they are defined. Of definitions with one name
  the last one counts.
-/
def DescribesArguments
    (arguments : Entries InputValue)
    (definitions : List InputValueDefinition) : Prop :=
  List.Forall₂
    (fun argument written =>
      argument.1 = written.1 ∧ argument.2.Describes written.2)
    arguments
    (Entries.ofList
      (definitions.map fun definition =>
        (definition.name, definition)))

variable {type field : String} {location : SourceLocation}
variable {arguments : Entries InputValue}
variable {definitions : List InputValueDefinition}

theorem DescribesArguments.covers
    (h : DescribesArguments arguments definitions)
    {given : Entries InputValue}
    (hGiven : Declared.arguments type field location definitions =
      .ok given) :
    arguments.Covers InputValue.Covers given ∧
      given.Covers InputValue.Covers arguments := by
  let read (definition : InputValueDefinition) : InputValue :=
    inputValue (location.moved definition.position) definition
  have hRead : given =
      (Entries.ofList
        (definitions.map fun definition =>
          (definition.name, definition))).mapValues read := by
    rw [(arguments_eq_ok_iff.1 hGiven).2, ← Entries.ofList_map,
      List.map_map]
    rfl
  rw [hRead]
  apply Entries.covers_both_of_forall₂
  rw [Entries.mapValues, List.forall₂_map_right_iff]
  exact h.imp fun _ _ hEntry => ⟨hEntry.1, hEntry.2.covers _⟩

/- Every argument is described under its name. -/
theorem DescribesArguments.exists_of_mem
    (h : DescribesArguments arguments definitions)
    {definition : InputValueDefinition}
    (hDefinition : definition ∈ definitions) :
    ∃ argument ∈ arguments, argument.1 = definition.name := by
  have hNames : arguments.names =
      (definitions.map InputValueDefinition.name).eraseDups := by
    refine (Entries.names_eq_of_forall₂ h).trans ?_
    refine (Entries.names_ofList _).trans ?_
    rw [List.map_map]
    rfl
  have hMem : definition.name ∈ arguments.names := by
    rw [hNames, List.mem_eraseDups]
    exact List.mem_map_of_mem hDefinition
  exact List.mem_map.1 hMem

end Declared

------------------------------------------------------------
-- Fields
------------------------------------------------------------

/- A field as it is defined, with its arguments. -/
structure OutputField.Describes
    (field : OutputField)
    (definition : FieldDefinition) : Prop where
  name_eq : field.name = definition.name
  type_eq : field.type.bare =
    (TypeRef.ofExpr .programmatic definition.type).bare
  arguments : Declared.DescribesArguments field.arguments
    definition.arguments

/- A field that is described and one that is read. -/
theorem OutputField.Describes.covers
    {type : String}
    {location : SourceLocation}
    {field : OutputField}
    {definition : FieldDefinition}
    {entry : String × OutputField}
    (h : field.Describes definition)
    (hEntry : Declared.Defines type location definition entry) :
    field.Covers entry.2 ∧ entry.2.Covers field := by
  rcases hEntry with ⟨given, hGiven, rfl⟩
  rcases h.arguments.covers hGiven with ⟨hThere, hBack⟩
  have hType : field.type.bare =
      (TypeRef.ofExpr (location.moved definition.position)
        definition.type).bare :=
    h.type_eq.trans (TypeRef.bare_ofExpr _ _ _)
  exact
    ⟨⟨h.name_eq, hType, hThere⟩,
      ⟨h.name_eq.symm, hType.symm, hBack⟩⟩

/-
  A body as it is defined, in order. No two fields have one
  name.
-/
structure FieldShape.Describes
    (shape : FieldShape)
    (interfaces : List String)
    (definitions : List FieldDefinition) : Prop where
  interfaces_eq : shape.interfaces = interfaces
  fields : List.Forall₂
    (fun entry definition =>
      entry.1 = definition.name ∧ entry.2.Describes definition)
    shape.fields definitions
  nodup : shape.fields.names.Nodup

namespace FieldShape.Describes

variable {type : String} {location : SourceLocation}
variable {shape : FieldShape} {interfaces : List String}
variable {definitions : List FieldDefinition}

theorem names_eq
    (h : shape.Describes interfaces definitions) :
    shape.fields.names =
      definitions.map FieldDefinition.name :=
  Entries.names_eq_of_forall₂ h.fields

/- A body that is described and one that is read. -/
theorem covers
    (h : shape.Describes interfaces definitions)
    {fields : Entries OutputField}
    (hFields : Declared.fields type location definitions =
      .ok fields) :
    shape.Covers ⟨fields, interfaces, none⟩ ∧
      FieldShape.Covers ⟨fields, interfaces, none⟩ shape := by
  have hAll := (Declared.fields_eq_ok_iff.1 hFields).2.2
  have hBoth : List.Forall₂
      (fun entry entry' : String × OutputField =>
        entry.1 = entry'.1 ∧ entry.2.Covers entry'.2 ∧
          entry'.2.Covers entry.2)
      shape.fields fields := by
    apply Results.forall₂_comp h.fields hAll
    intro entry definition entry' hEntry hEntry'
    have hName : entry'.1 = definition.name :=
      hEntry'.writes.1
    exact ⟨hEntry.1.trans hName.symm, hEntry.2.covers hEntry'⟩
  rcases Entries.covers_both_of_forall₂ hBoth with
    ⟨hThere, hBack⟩
  exact
    ⟨⟨hThere, .of_eq h.interfaces_eq⟩,
      ⟨hBack, .of_eq h.interfaces_eq.symm⟩⟩

end FieldShape.Describes

namespace Declared

variable {type : String} {location : SourceLocation}

/- Fields are read if all their names will do. -/
theorem exists_fields
    {definitions : List FieldDefinition}
    (hNodup : (definitions.map FieldDefinition.name).Nodup)
    (hNames : ∀ definition ∈ definitions,
      Name.isReserved definition.name = false ∧
        ∀ argument ∈ definition.arguments,
          Name.isReserved argument.name = false) :
    ∃ result, fields type location definitions =
      .ok result := by
  have hAll : ∃ result, List.Forall₂ (Defines type location)
      definitions result := by
    clear hNodup
    induction definitions with
    | nil => exact ⟨[], .nil⟩
    | cons definition rest ih =>
        rw [List.forall_mem_cons] at hNames
        rcases ih hNames.2 with ⟨result, hResult⟩
        have hDefines : ∃ entry,
            Defines type location definition entry :=
          ⟨_, _, arguments_eq_ok_iff.2 ⟨hNames.1.2, rfl⟩, rfl⟩
        rcases hDefines with ⟨entry, hEntry⟩
        exact ⟨entry :: result, .cons hEntry hResult⟩
  rcases hAll with ⟨result, hResult⟩
  exact
    ⟨result, fields_eq_ok_iff.2
      ⟨hNodup, fun definition hMem => (hNames definition hMem).1,
        hResult⟩⟩

end Declared

------------------------------------------------------------
-- Types
------------------------------------------------------------

namespace TypeDef

/-
  A type as it is defined. It may stand anywhere, and its hooks,
  descriptions, metadata and internal values may be any.
-/
inductive Describes : TypeDef → TypeDefinition → Prop where
  | object {type : ObjectType} {definition : TypeDefinition}
      {interfaces : List String}
      {fields : List FieldDefinition} :
      definition.content = .object interfaces fields →
      type.name = definition.name →
      type.shape.Describes interfaces fields →
      Describes (.object type) definition
  | interface {type : InterfaceType}
      {definition : TypeDefinition} {interfaces : List String}
      {fields : List FieldDefinition} :
      definition.content = .interface interfaces fields →
      type.name = definition.name →
      type.shape.Describes interfaces fields →
      Describes (.interface type) definition
  | union {type : UnionType} {definition : TypeDefinition} :
      definition.content = .union type.listed →
      type.name = definition.name →
      Describes (.union type) definition
  | enum {type : EnumType} {definition : TypeDefinition}
      {values : List EnumValueDefinition} :
      definition.content = .enum values →
      type.name = definition.name →
      type.values.map EnumValue.name =
        values.map EnumValueDefinition.name →
      Describes (.enum type) definition
  | inputObject {type : InputObjectType}
      {definition : TypeDefinition}
      {fields : List InputValueDefinition} :
      definition.content = .inputObject fields →
      type.name = definition.name →
      List.Forall₂
        (fun entry field =>
          entry.1 = field.name ∧ entry.2.Describes field)
        type.fields fields →
      type.fields.names.Nodup →
      Describes (.inputObject type) definition

end TypeDef

/-
  What is listed once: no interface or member is listed twice,
  no interface implements itself, and an enum has values.
-/
def TypeContent.Orderly (name : String) : TypeContent → Prop
| scalar => True
| object interfaces _ => interfaces.Nodup
| interface interfaces _ =>
    interfaces.Nodup ∧ name ∉ interfaces
| union members => members.Nodup
| enum values => values.isEmpty = false
| inputObject _ => True

def TypeDefinition.Orderly (definition : TypeDefinition) :
    Prop :=
  definition.content.Orderly definition.name

instance (name : String) :
    (content : TypeContent) → Decidable (content.Orderly name)
| .scalar => inferInstanceAs (Decidable True)
| .object interfaces _ =>
    inferInstanceAs (Decidable interfaces.Nodup)
| .interface interfaces _ =>
    inferInstanceAs
      (Decidable (interfaces.Nodup ∧ name ∉ interfaces))
| .union members => inferInstanceAs (Decidable members.Nodup)
| .enum values =>
    inferInstanceAs (Decidable (values.isEmpty = false))
| .inputObject _ => inferInstanceAs (Decidable True)

instance (definition : TypeDefinition) :
    Decidable definition.Orderly :=
  inferInstanceAs
    (Decidable (definition.content.Orderly definition.name))

namespace TypeDef

variable {location : SourceLocation} {type read : TypeDef}
variable {definition : TypeDefinition}

/- Enums with the same values cover each other. -/
theorem covers_enum
    {enum enum' : EnumType}
    (hName : enum.name = enum'.name)
    (hValues : enum.values.map EnumValue.name =
      enum'.values.map EnumValue.name) :
    Covers (.enum enum) (.enum enum') :=
  .enum hName (fun _ => by rw [hValues])
    (by rw [hValues]; exact id)

/-
  The type that is read and the one described cover each other,
  and what is listed is listed properly.
-/
theorem Describes.covers
    (h : type.Describes definition)
    (hRead : ofDefinition location definition = .ok read) :
    type.Covers read ∧ read.Covers type ∧
      definition.Orderly := by
  unfold TypeDefinition.Orderly
  unfold ofDefinition at hRead
  cases h with
  | object hContent hName hShape =>
      simp only [hContent, Results.bind_eq_ok_iff] at hRead ⊢
      rcases hRead with ⟨fields, hFields, listed, hListed, hRead⟩
      cases hRead
      rcases (Declared.interfaces_eq_ok_iff _ _ _ _ _ _).1
        hListed with ⟨hFresh, -, rfl⟩
      rcases hShape.covers hFields with ⟨hThere, hBack⟩
      exact
        ⟨.object hName hThere, .object hName.symm hBack,
          hFresh.nodup⟩
  | interface hContent hName hShape =>
      simp only [hContent, Results.bind_eq_ok_iff] at hRead ⊢
      rcases hRead with ⟨fields, hFields, listed, hListed, hRead⟩
      cases hRead
      rcases (Declared.interfaces_eq_ok_iff _ _ _ _ _ _).1
        hListed with ⟨hFresh, hSelf, rfl⟩
      rcases hShape.covers hFields with ⟨hThere, hBack⟩
      exact
        ⟨.interface hName hThere, .interface hName.symm hBack,
          hFresh.nodup, fun hMem => hSelf _ hMem ⟨rfl, rfl⟩⟩
  | union hContent hName =>
      simp only [hContent, Results.bind_eq_ok_iff] at hRead ⊢
      rcases hRead with ⟨listed, hListed, hRead⟩
      cases hRead
      rcases (Declared.members_eq_ok_iff _ _ _ _ _).1 hListed with
        ⟨hFresh, rfl⟩
      exact
        ⟨.union hName (.refl _), .union hName.symm (.refl _),
          hFresh.nodup⟩
  | @enum type _ values hContent hName hValues =>
      simp only [hContent] at hRead ⊢
      split at hRead
      · cases hRead
      · next hSome =>
          rcases Results.bind_eq_ok_iff.1 hRead with
            ⟨all, hAll, hRead⟩
          cases hRead
          have hNames : type.values.map EnumValue.name =
              all.map EnumValue.name := by
            rcases (Declared.values_eq_ok_iff _ _ _ _ _ _).1 hAll
              with ⟨-, rfl⟩
            rw [hValues, List.nil_append,
              Declared.names_enumValues]
          refine
            ⟨covers_enum hName hNames,
              covers_enum hName.symm hNames.symm, ?_⟩
          simpa [TypeContent.Orderly] using hSome
  | @inputObject type _ definitions hContent hName hFields _ =>
      simp only [hContent, Results.bind_eq_ok_iff] at hRead ⊢
      rcases hRead with ⟨fields, hGiven, hRead⟩
      cases hRead
      rcases Declared.inputFields_eq_ok_iff.1 hGiven with
        ⟨-, -, rfl⟩
      have hBoth : List.Forall₂
          (fun entry entry' : String × InputValue =>
            entry.1 = entry'.1 ∧ entry.2.Covers entry'.2 ∧
              entry'.2.Covers entry.2)
          type.fields
          (definitions.map (Declared.named location)) :=
        List.forall₂_map_right_iff.2
          (hFields.imp fun _ _ hEntry =>
            ⟨hEntry.1, hEntry.2.covers _⟩)
      rcases Entries.covers_both_of_forall₂ hBoth with
        ⟨hThere, hBack⟩
      exact
        ⟨.inputObject hName hThere,
          .inputObject hName.symm hBack, trivial⟩

/-
  A type whose members are filed under their names, which are
  well formed and not reserved. No enum value is repeated.
-/
structure WellNamed (type : TypeDef) : Prop where
  fields : ∀ entry ∈ type.fields,
    TypeFlaw.ofField? entry.1 entry.2 = none
  inputFields : ∀ entry ∈ type.inputFields,
    TypeFlaw.ofName? .field entry.1 entry.2.name = none
  values : type.values.names.Nodup

/- A type without flaws is well named. -/
theorem wellNamed_of_flaw?_eq_none
    (h : type.flaw? = none) : type.WellNamed := by
  cases type with
  | object type =>
      have hFields := TypeFlaw.firstFlaw_eq_none_iff.1 h
      exact ⟨hFields.2, by simp [inputFields], .nil⟩
  | interface type =>
      have hFields := TypeFlaw.firstFlaw_eq_none_iff.1 h
      exact ⟨hFields.2, by simp [inputFields], .nil⟩
  | inputObject type =>
      have hFields := TypeFlaw.firstFlaw_eq_none_iff.1 h
      exact ⟨by simp [fields], hFields.2, .nil⟩
  | enum type =>
      have hValues := TypeFlaw.ofValues?_eq_none_iff.1 h
      refine ⟨by simp [fields], by simp [inputFields], ?_⟩
      rw [values, EnumValue.names_entries]
      exact hValues.2.2
  | union type =>
      exact ⟨by simp [fields], by simp [inputFields], .nil⟩
  | scalar type =>
      exact ⟨by simp [fields], by simp [inputFields], .nil⟩

/- A type was well named if it is after an extension. -/
theorem Extends.wellNamed
    {extension : TypeExtension}
    {next : TypeDef}
    (h : Extends location extension type next)
    (hNext : next.WellNamed) : type.WellNamed := by
  rcases hNext with ⟨hFields, hInputFields, hValues⟩
  cases h with
  | scalar _ => exact ⟨hFields, hInputFields, hValues⟩
  | union _ _ => exact ⟨hFields, hInputFields, hValues⟩
  | object _ _ _ =>
      exact
        ⟨fun entry hEntry =>
          hFields entry (List.mem_append_left _ hEntry),
          hInputFields, hValues⟩
  | interface _ _ _ _ =>
      exact
        ⟨fun entry hEntry =>
          hFields entry (List.mem_append_left _ hEntry),
          hInputFields, hValues⟩
  | inputObject _ _ _ =>
      exact
        ⟨hFields, fun entry hEntry =>
          hInputFields entry (List.mem_append_left _ hEntry),
          hValues⟩
  | enum _ _ =>
      refine ⟨hFields, hInputFields, ?_⟩
      simp only [values, EnumValue.names_entries,
        List.map_append] at hValues ⊢
      exact (List.nodup_append.1 hValues).1

end TypeDef

/- A name without flaws is filed, and not reserved. -/
theorem TypeFlaw.of_ofName?_eq_none
    {role : MemberRole}
    {key name : String}
    (h : ofName? role key name = none) :
    key = name ∧ Name.isReserved name = false := by
  unfold ofName? at h
  split at h
  · cases h
  · next hKey =>
      split at h
      · cases h
      · next hName =>
          rw [Bool.or_eq_true, not_or] at hName
          exact ⟨of_not_not hKey, by simpa using hName.2⟩

/- No name in a field that is described is reserved. -/
theorem OutputField.Describes.not_reserved
    {key : String}
    {field : OutputField}
    {definition : FieldDefinition}
    (h : field.Describes definition)
    (hField : TypeFlaw.ofField? key field = none) :
    Name.isReserved definition.name = false ∧
      ∀ argument ∈ definition.arguments,
        Name.isReserved argument.name = false := by
  unfold TypeFlaw.ofField? at hField
  rw [Option.or_eq_none_iff, List.findSome?_eq_none_iff]
    at hField
  constructor
  · rw [← h.name_eq]
    exact (TypeFlaw.of_ofName?_eq_none hField.1).2
  · intro argument hArgument
    rcases h.arguments.exists_of_mem hArgument with
      ⟨given, hGiven, hName⟩
    rcases TypeFlaw.of_ofName?_eq_none (hField.2 given hGiven)
      with ⟨hFiled, hReserved⟩
    rw [← hName, hFiled]
    exact hReserved

/- A body that is described without flaws is read. -/
theorem FieldShape.Describes.exists_fields
    {shape : FieldShape}
    {interfaces : List String}
    {definitions : List FieldDefinition}
    (h : shape.Describes interfaces definitions)
    (type : String)
    (location : SourceLocation)
    (hFields : ∀ entry ∈ shape.fields,
      TypeFlaw.ofField? entry.1 entry.2 = none) :
    ∃ fields, Declared.fields type location definitions =
      .ok fields := by
  apply Declared.exists_fields
  · rw [← h.names_eq]
    exact h.nodup
  · intro definition hDefinition
    rcases Results.exists_of_forall₂_of_mem h.fields
      hDefinition with ⟨entry, hEntry, -, hDescribes⟩
    exact hDescribes.not_reserved (hFields entry hEntry)

/-
  A definition that is orderly is read if a type that it
  describes is well named.
-/
theorem TypeDef.Describes.exists_ofDefinition
    {location : SourceLocation}
    {type : TypeDef}
    {definition : TypeDefinition}
    (h : type.Describes definition)
    (hOrderly : definition.Orderly)
    (hNames : type.WellNamed) :
    ∃ read, ofDefinition location definition = .ok read := by
  unfold TypeDefinition.Orderly at hOrderly
  simp only [ofDefinition_eq_ok_iff]
  cases h with
  | object hContent _ hShape =>
      rw [hContent] at hOrderly
      rcases hShape.exists_fields definition.name location
        hNames.fields with ⟨fields, hFields⟩
      exact ⟨_, .object hContent hFields hOrderly⟩
  | interface hContent _ hShape =>
      rw [hContent] at hOrderly
      rcases hShape.exists_fields definition.name location
        hNames.fields with ⟨fields, hFields⟩
      exact
        ⟨_, .interface hContent hFields hOrderly.1 hOrderly.2⟩
  | union hContent _ =>
      rw [hContent] at hOrderly
      exact ⟨_, .union hContent hOrderly⟩
  | enum hContent _ hValues =>
      rw [hContent] at hOrderly
      have hNodup := hNames.values
      rw [TypeDef.values, EnumValue.names_entries, hValues]
        at hNodup
      exact ⟨_, .enum hContent hOrderly hNodup⟩
  | @inputObject _ _ definitions hContent _ hFields hNodup =>
      have hDefined := Entries.names_eq_of_forall₂ hFields
      have hReserved : ∀ field ∈ definitions,
          Name.isReserved field.name = false := by
        intro field hField
        rcases Results.exists_of_forall₂_of_mem hFields hField
          with ⟨entry, hEntry, -, hDescribes⟩
        rw [← hDescribes.name_eq]
        exact (TypeFlaw.of_ofName?_eq_none
          (hNames.inputFields entry hEntry)).2
      exact
        ⟨_, .inputObject hContent
          (Declared.inputFields_eq_ok_iff.2
            ⟨hDefined ▸ hNodup, hReserved, rfl⟩)⟩

end GraphQL
