import GraphQL.Proofs.Results
import GraphQL.Proofs.Schema.Alike

/-
  What definitions and extensions add to a type.

  Whatever is added has a name of its own that is new: this is
  all that additions ask of each other, so extensions of a type
  may come in any order.

  Key definitions include:
    * `Fresh`: names that may be added to others
    * `TypeDef.DefinedBy`: a definition and the type it defines
    * `TypeDef.Extends`: a type and what an extension makes of it

  Main declarations:
    * `foldlM_append_eq_ok_iff`
    * `TypeDef.ofDefinition_eq_ok_iff`
    * `TypeDef.extend_eq_ok_iff`
    * `TypeDef.Extends.congr`, `TypeDef.Extends.swap`
-/

------------------------------------------------------------
-- Fresh Names
------------------------------------------------------------

namespace GraphQL

/- What is added to a list may be added in either order. -/
theorem append_swap_perm
    {α : Type}
    (known first second : List α) :
    (known ++ first ++ second).Perm
      (known ++ second ++ first) := by
  rw [List.append_assoc, List.append_assoc]
  exact List.perm_append_comm.append_left known

/- Distinct names none of which is known. -/
structure Fresh (known names : List String) : Prop where
  nodup : names.Nodup
  not_mem : ∀ name ∈ names, name ∉ known

namespace Fresh

variable {known known' names later : List String}

theorem nil : Fresh known [] :=
  ⟨List.nodup_nil, by simp⟩

/- Names may be added to none exactly if they are distinct. -/
theorem nil_iff : Fresh [] names ↔ names.Nodup :=
  ⟨Fresh.nodup, fun h => ⟨h, by simp⟩⟩

/- It does not matter how the known names are listed. -/
theorem congr
    (h : Fresh known names)
    (hKnown : ∀ name, name ∈ known ↔ name ∈ known') :
    Fresh known' names :=
  ⟨h.nodup, fun name hName hMem =>
    h.not_mem name hName ((hKnown name).2 hMem)⟩

/- Names that are new leave a list without repetitions. -/
theorem nodup_append
    (h : Fresh known names)
    (hKnown : known.Nodup) : (known ++ names).Nodup := by
  rw [List.nodup_append]
  refine ⟨hKnown, h.nodup, ?_⟩
  rintro name hName _ hOther rfl
  exact h.not_mem name hOther hName

/- Names are added one at a time. -/
theorem cons_iff (name : String) :
    Fresh known (name :: names) ↔
      name ∉ known ∧ Fresh (known ++ [name]) names := by
  constructor
  · intro h
    have hNodup := List.nodup_cons.1 h.nodup
    refine ⟨h.not_mem name List.mem_cons_self, hNodup.2, ?_⟩
    intro other hOther hMem
    rcases List.mem_append.1 hMem with hKnown | hSame
    · exact h.not_mem other (List.mem_cons_of_mem _ hOther)
        hKnown
    · rw [List.mem_singleton.1 hSame] at hOther
      exact hNodup.1 hOther
  · intro hParts
    rcases hParts with ⟨hName, h⟩
    refine ⟨List.nodup_cons.2 ⟨?_, h.nodup⟩, ?_⟩
    · intro hMem
      exact h.not_mem name hMem (by simp)
    · intro other hOther
      rcases List.mem_cons.1 hOther with rfl | hRest
      · exact hName
      · intro hKnown
        exact h.not_mem other hRest
          (List.mem_append_left _ hKnown)

/- Two lists of names may be added in either order. -/
theorem swap
    (hFirst : Fresh known names)
    (hLater : Fresh (known ++ names) later) :
    Fresh known later ∧ Fresh (known ++ later) names := by
  refine ⟨⟨hLater.nodup, ?_⟩, ⟨hFirst.nodup, ?_⟩⟩
  · intro name hName hKnown
    exact hLater.not_mem name hName
      (List.mem_append_left _ hKnown)
  · intro name hName hMem
    rcases List.mem_append.1 hMem with hKnown | hOther
    · exact hFirst.not_mem name hName hKnown
    · exact hLater.not_mem name hOther
        (List.mem_append_right _ hName)

end Fresh

/-
  Items are added in turn if each has a name that is new, and
  adds something under this name. What is done is known by some
  names.
-/
theorem foldlM_adds_eq_ok_iff
    {α β : Type}
    {step : List β → α → Except BuildError (List β)}
    {Adds : α → β → Prop}
    (key : β → String)
    (name : α → String)
    (hKey : ∀ a b, Adds a b → key b = name a)
    (hStep : ∀ done a next, step done a = .ok next ↔
      name a ∉ done.map key ∧
        ∃ b, Adds a b ∧ next = done ++ [b])
    (items : List α)
    (done result : List β) :
    items.foldlM step done = .ok result ↔
      Fresh (done.map key) (items.map name) ∧
        ∃ added, List.Forall₂ Adds items added ∧
          result = done ++ added := by
  induction items generalizing done with
  | nil =>
      rw [List.foldlM_nil]
      constructor
      · rintro ⟨⟩
        exact ⟨.nil, [], .nil, by simp⟩
      · rintro ⟨-, added, hAdded, rfl⟩
        cases hAdded
        simp [pure, Except.pure]
  | cons a rest ih =>
      rw [List.foldlM_cons, Results.bind_eq_ok_iff,
        List.map_cons, Fresh.cons_iff]
      have hKnown : ∀ b, Adds a b →
          (done ++ [b]).map key = done.map key ++ [name a] := by
        intro b hAdds
        rw [List.map_append, List.map_singleton, hKey a b hAdds]
      constructor
      · rintro ⟨next, hNext, hRest⟩
        rcases (hStep _ _ _).1 hNext with ⟨hName, b, hAdds, rfl⟩
        rcases (ih _).1 hRest with ⟨hFresh, added, hAdded, rfl⟩
        rw [hKnown b hAdds] at hFresh
        exact ⟨⟨hName, hFresh⟩, b :: added, .cons hAdds hAdded,
          by simp⟩
      · rintro ⟨⟨hName, hFresh⟩, _, hAll, rfl⟩
        rcases hAll with - | @⟨_, b, _, added, hAdds, hAdded⟩
        rw [← hKnown b hAdds] at hFresh
        exact ⟨done ++ [b],
          (hStep _ _ _).2 ⟨hName, b, hAdds, rfl⟩,
          (ih _).2 ⟨hFresh, added, hAdded, by simp⟩⟩

/- So are items that each add one thing if they are admitted. -/
theorem foldlM_append_eq_ok_iff
    {α β : Type}
    {step : List β → α → Except BuildError (List β)}
    (key : β → String)
    (name : α → String)
    (item : α → β)
    (Admitted : α → Prop)
    (hKey : ∀ a, key (item a) = name a)
    (hStep : ∀ done a next, step done a = .ok next ↔
      name a ∉ done.map key ∧ Admitted a ∧
        next = done ++ [item a])
    (items : List α)
    (done result : List β) :
    items.foldlM step done = .ok result ↔
      Fresh (done.map key) (items.map name) ∧
        (∀ a ∈ items, Admitted a) ∧
        result = done ++ items.map item := by
  have hNames : ∀ a b, Admitted a ∧ item a = b →
      key b = name a := by
    rintro a _ ⟨-, rfl⟩
    exact hKey a
  have hAdds : ∀ done a next, step done a = .ok next ↔
      name a ∉ done.map key ∧
        ∃ b, (Admitted a ∧ item a = b) ∧ next = done ++ [b] := by
    intro done a next
    simp [hStep]
  rw [foldlM_adds_eq_ok_iff key name hNames hAdds]
  simp only [List.forall₂_and_left,
    ← List.forall₂_map_left_iff, List.forall₂_eq_eq_eq]
  simp

------------------------------------------------------------
-- Declared Parts
------------------------------------------------------------

namespace Declared

/- A name that is new has no entry. -/
theorem get?_eq_none_iff
    {α : Type}
    (entries : Entries α)
    (name : String) :
    entries.get? name = none ↔ name ∉ entries.names := by
  rw [← Entries.contains_iff_mem_names]
  cases h : entries.get? name <;> simp [Entries.contains, h]

/- A new name is stored at the end. -/
theorem insert_of_not_mem
    {α : Type}
    {entries : Entries α}
    {name : String}
    {value : α}
    (h : name ∉ entries.names) :
    entries.insert name value = entries ++ [(name, value)] := by
  induction entries with
  | nil => rfl
  | cons entry rest ih =>
      simp only [Entries.names, List.map_cons,
        List.mem_cons, not_or] at h
      have hName : entry.1 ≠ name := fun hSame => h.1 hSame.symm
      simp [Entries.insert, hName, ih h.2]

/- A name either is new or has an entry already. -/
theorem new_or_known
    {α : Type}
    (entries : Entries α)
    (name : String) :
    (name ∉ entries.names ∧ entries.get? name = none) ∨
      (name ∈ entries.names ∧
        ∃ first, entries.get? name = some first) := by
  rw [← get?_eq_none_iff, ← Entries.contains_iff_mem_names]
  cases h : entries.get? name <;> simp [Entries.contains, h]

/- Interfaces are added if they are new and not the type. -/
theorem interfaces_eq_ok_iff
    (type : String)
    (kind : TypeKind)
    (location : SourceLocation)
    (done names result : List String) :
    interfaces type kind location done names = .ok result ↔
      Fresh done names ∧
        (∀ name ∈ names, ¬ (kind = .interface ∧ name = type)) ∧
        result = done ++ names := by
  have hStep : ∀ done name next,
      interface type kind location done name = .ok next ↔
        name ∉ done.map id ∧
          ¬ (kind = .interface ∧ name = type) ∧
          next = done ++ [id name] := by
    intro done name next
    unfold interface
    by_cases hSelf : kind = .interface ∧ name = type
    · simp [hSelf]
    · rw [if_neg hSelf]
      by_cases hMem : name ∈ done
      · simp [hMem]
      · simp only [List.contains_eq_mem, hMem, decide_false,
          Bool.false_eq_true, if_false, Except.ok.injEq,
          List.map_id, not_false_eq_true, hSelf, true_and, id]
        exact eq_comm
  have h := foldlM_append_eq_ok_iff id id id _ (fun _ => rfl)
    hStep names done result
  simpa [interfaces] using h

/- Members are added if they are new. -/
theorem members_eq_ok_iff
    (union : String)
    (location : SourceLocation)
    (done : Entries SourceLocation)
    (names result : List String) :
    members union location done names = .ok result ↔
      Fresh done.names names ∧ result = done.names ++ names := by
  have hStep : ∀ (done : Entries SourceLocation) name next,
      member union location done name = .ok next ↔
        name ∉ done.map Prod.fst ∧ True ∧
          next = done ++ [(name, location)] := by
    intro done name next
    unfold member
    rcases new_or_known done name with
      ⟨hNew, hNone⟩ | ⟨hMem, first, hFound⟩
    · simp only [hNone, Except.ok.injEq, true_and]
      exact (eq_comm.trans (and_iff_right hNew).symm)
    · rw [hFound]
      exact iff_of_false nofun fun hParts => hParts.1 hMem
  have hFold := fun result =>
    foldlM_append_eq_ok_iff Prod.fst id
      (fun name => (name, location)) _ (fun _ => rfl) hStep
      names done result
  unfold members
  rw [Results.bind_eq_ok_iff]
  constructor
  · intro hParts
    rcases hParts with ⟨all, hAll, hResult⟩
    rcases (hFold all).1 hAll with ⟨hFresh, -, rfl⟩
    cases hResult
    rw [List.map_id] at hFresh
    exact ⟨hFresh, by simp [Entries.names, Function.comp_def]⟩
  · intro hParts
    rcases hParts with ⟨hFresh, rfl⟩
    rw [← List.map_id names] at hFresh
    refine ⟨_, (hFold _).2 ⟨hFresh, by simp, rfl⟩, ?_⟩
    simp [Entries.names, Function.comp_def, pure, Except.pure]

/- Values have the names of their definitions. -/
theorem names_enumValues
    (location : SourceLocation)
    (definitions : List EnumValueDefinition) :
    (definitions.map fun definition =>
      enumValue (location.moved definition.position)
        definition).map EnumValue.name =
      definitions.map EnumValueDefinition.name := by
  rw [List.map_map]
  rfl

/- Values are added if they are new. -/
theorem values_eq_ok_iff
    (enum : String)
    (enumLocation location : SourceLocation)
    (done : List EnumValue)
    (definitions : List EnumValueDefinition)
    (result : List EnumValue) :
    values enum enumLocation location done definitions =
        .ok result ↔
      Fresh (done.map EnumValue.name)
          (definitions.map EnumValueDefinition.name) ∧
        result = done ++ definitions.map fun definition =>
          enumValue (location.moved definition.position)
            definition := by
  have hStep : ∀ done definition next,
      value enum enumLocation location done definition =
          .ok next ↔
        definition.name ∉ done.map EnumValue.name ∧ True ∧
          next = done ++
            [enumValue (location.moved definition.position)
              definition] := by
    intro done definition next
    unfold value
    simp only
    split
    · next first hFound =>
        have hName := List.find?_some hFound
        have hMem : definition.name ∈ done.map EnumValue.name :=
          List.mem_map.2
            ⟨first, List.mem_of_find?_eq_some hFound,
              by simpa using hName⟩
        simp [hMem]
    · next hFound =>
        have hNew : definition.name ∉ done.map EnumValue.name := by
          simpa using hFound
        simp only [hNew, not_false_eq_true, true_and,
          Except.ok.injEq]
        exact eq_comm
  have h := foldlM_append_eq_ok_iff EnumValue.name
    EnumValueDefinition.name _ _ (fun _ => rfl) hStep
    definitions done result
  simpa [values] using h

/- Fields are added if they are new. -/
theorem extendBody_eq_ok_iff
    {α : Type}
    (type : String)
    (location : α → SourceLocation)
    (body additions result : Entries α) :
    extendBody type location body additions = .ok result ↔
      Fresh body.names additions.names ∧
        result = body ++ additions := by
  unfold extendBody
  refine
    (foldlM_append_eq_ok_iff Prod.fst Prod.fst id
      (fun _ => True) (fun _ => rfl) ?_ additions body
      result).trans (by simp [Entries.names])
  rintro body ⟨name, added⟩ next
  rcases new_or_known body name with
    ⟨hNew, hNone⟩ | ⟨hMem, first, hFound⟩
  · simp only [hNone, insert_of_not_mem hNew, Except.ok.injEq,
      true_and, id]
    exact eq_comm.trans (and_iff_right hNew).symm
  · refine iff_of_false ?_ fun hParts => hParts.1 hMem
    simp [hFound]

end Declared

------------------------------------------------------------
-- Extended Parts
------------------------------------------------------------

namespace Entries

variable {α : Type} {body body' added later : Entries α}

/- What is appended is found if the name was not there. -/
theorem get?_append (body added : Entries α) (name : String) :
    get? (body ++ added) name =
      (get? body name).or (get? added name) := by
  induction body with
  | nil => simp
  | cons entry rest ih =>
      by_cases hName : entry.1 = name
      · simp [get?, hName]
      · simpa [get?, hName] using ih

/- The same entries may be appended to entries that are alike. -/
theorem Alike.append
    (h : body.Alike body')
    (added : Entries α) :
    Entries.Alike (body ++ added) (body' ++ added) where
  perm := h.perm.append_right added
  get?_eq name := by
    rw [get?_append, get?_append, h.get?_eq]

/- Entries with different names may be appended in any order. -/
theorem alike_append_swap
    (h : Fresh (body.names ++ added.names) later.names) :
    Entries.Alike (body ++ added ++ later)
      (body ++ later ++ added) where
  perm := append_swap_perm body added later
  get?_eq name := by
    simp only [get?_append]
    by_cases hName : name ∈ later.names
    · have hNone : get? added name = none := by
        rw [Declared.get?_eq_none_iff]
        intro hMem
        exact h.not_mem name hName
          (List.mem_append_right _ hMem)
      simp [hNone]
    · rw [(Declared.get?_eq_none_iff later name).2 hName]
      simp

end Entries

namespace TypeHeader

variable {header header' : TypeHeader}

theorem Alike.extend
    (h : header.Alike header')
    (location : SourceLocation)
    (extension : TypeExtension) :
    (header.extend location extension).Alike
      (header'.extend location extension) where
  name_eq := h.name_eq
  location_eq := h.location_eq
  description_eq := h.description_eq
  metadata_eq := h.metadata_eq
  directives := h.directives.append_right _
  extensions := h.extensions.append_right _

theorem alike_extend_swap
    (header : TypeHeader)
    (place place' : SourceLocation)
    (extension extension' : TypeExtension) :
    ((header.extend place extension).extend place'
        extension').Alike
      ((header.extend place' extension').extend place
        extension) where
  name_eq := rfl
  location_eq := rfl
  description_eq := rfl
  metadata_eq := rfl
  directives := append_swap_perm header.directives _ _
  extensions := append_swap_perm header.extensions _ _

end TypeHeader

namespace FieldShape

/- A body with more interfaces and fields. -/
def add
    (shape : FieldShape)
    (interfaces : List String)
    (fields : Entries OutputField) : FieldShape :=
  { shape with
    fields := shape.fields ++ fields
    interfaces := shape.interfaces ++ interfaces }

/- Interfaces and fields that a body does not have yet. -/
structure Admits
    (shape : FieldShape)
    (interfaces : List String)
    (fields : Entries OutputField) : Prop where
  interfaces : Fresh shape.interfaces interfaces
  fields : Fresh shape.fields.names fields.names

variable {shape shape' : FieldShape}
variable {interfaces interfaces' : List String}
variable {fields fields' : Entries OutputField}

/- A body is extended by what it does not have yet. -/
theorem extend_eq_ok_iff
    {type : String}
    {kind : TypeKind}
    {location : SourceLocation}
    {definitions : List FieldDefinition} :
    shape.extend type kind location interfaces definitions =
        .ok shape' ↔
      ∃ added,
        Declared.fields type location definitions = .ok added ∧
          (∀ name ∈ interfaces,
            ¬ (kind = .interface ∧ name = type)) ∧
          shape.Admits interfaces added ∧
          shape' = shape.add interfaces added := by
  unfold extend
  constructor
  · intro h
    rcases Results.bind_eq_ok_iff.1 h with
      ⟨allInterfaces, hInterfaces, h⟩
    rcases Results.bind_eq_ok_iff.1 h with ⟨added, hAdded, h⟩
    rcases Results.bind_eq_ok_iff.1 h with
      ⟨allFields, hFields, h⟩
    cases h
    rcases (Declared.interfaces_eq_ok_iff _ _ _ _ _ _).1
      hInterfaces with ⟨hFresh, hSelf, rfl⟩
    rcases (Declared.extendBody_eq_ok_iff _ _ _ _ _).1
      hFields with ⟨hNew, rfl⟩
    exact ⟨added, hAdded, hSelf, ⟨hFresh, hNew⟩, rfl⟩
  · intro hParts
    rcases hParts with ⟨added, hAdded, hSelf, hAdmits, rfl⟩
    have hInterfaces :=
      (Declared.interfaces_eq_ok_iff type kind location _ _ _).2
        ⟨hAdmits.interfaces, hSelf, rfl⟩
    have hFields :=
      (Declared.extendBody_eq_ok_iff type OutputField.location
        _ _ _).2 ⟨hAdmits.fields, rfl⟩
    refine Results.bind_eq_ok_iff.2 ⟨_, hInterfaces, ?_⟩
    refine Results.bind_eq_ok_iff.2 ⟨_, hAdded, ?_⟩
    exact Results.bind_eq_ok_iff.2 ⟨_, hFields, rfl⟩

theorem Admits.congr
    (h : shape.Admits interfaces fields)
    (hAlike : shape.Alike shape') :
    shape'.Admits interfaces fields where
  interfaces :=
    h.interfaces.congr fun _ => hAlike.interfaces.mem_iff
  fields := h.fields.congr hAlike.fields.mem_names_iff

theorem Alike.add
    (h : shape.Alike shape')
    (interfaces : List String)
    (fields : Entries OutputField) :
    (shape.add interfaces fields).Alike
      (shape'.add interfaces fields) where
  fields := h.fields.append fields
  interfaces := h.interfaces.append_right interfaces
  resolveField_eq := h.resolveField_eq

/- Two additions may be made in either order. -/
theorem Admits.swap
    (hFirst : shape.Admits interfaces fields)
    (hLater :
      (shape.add interfaces fields).Admits interfaces'
        fields') :
    shape.Admits interfaces' fields' ∧
      (shape.add interfaces' fields').Admits interfaces
        fields ∧
      ((shape.add interfaces fields).add interfaces'
          fields').Alike
        ((shape.add interfaces' fields').add interfaces
          fields) := by
  have hFields : Fresh (shape.fields.names ++ fields.names)
      fields'.names := by
    simpa [add, Entries.names] using hLater.fields
  have hInterfaces := hFirst.interfaces.swap hLater.interfaces
  have hNames := hFirst.fields.swap hFields
  refine ⟨⟨hInterfaces.1, hNames.1⟩, ⟨hInterfaces.2, ?_⟩, ?_⟩
  · simpa [add, Entries.names] using hNames.2
  · exact
      ⟨Entries.alike_append_swap hFields,
        append_swap_perm shape.interfaces _ _, rfl⟩

end FieldShape

------------------------------------------------------------
-- Defined Types
------------------------------------------------------------

namespace TypeDef

/- The types that a definition defines. -/
inductive DefinedBy
    (location : SourceLocation)
    (definition : TypeDefinition) : TypeDef → Prop where
  | scalar :
      definition.content = .scalar →
      DefinedBy location definition
        (.scalar
          { header := .ofDefinition location definition
            serialize := none
            parseValue := none
            parseLiteral := none
            specifiedBy :=
              AppliedDirective.specifiedBy
                (TypeHeader.ofDefinition location
                  definition).directives })
  | object {interfaces : List String}
      {definitions : List FieldDefinition}
      {fields : Entries OutputField} :
      definition.content = .object interfaces definitions →
      Declared.fields definition.name location definitions =
        .ok fields →
      interfaces.Nodup →
      DefinedBy location definition
        (.object
          ⟨.ofDefinition location definition,
            ⟨fields, interfaces, none⟩, none⟩)
  | interface {interfaces : List String}
      {definitions : List FieldDefinition}
      {fields : Entries OutputField} :
      definition.content = .interface interfaces definitions →
      Declared.fields definition.name location definitions =
        .ok fields →
      interfaces.Nodup →
      definition.name ∉ interfaces →
      DefinedBy location definition
        (.interface
          ⟨.ofDefinition location definition,
            ⟨fields, interfaces, none⟩, none⟩)
  | union {members : List String} :
      definition.content = .union members →
      members.Nodup →
      DefinedBy location definition
        (.union
          ⟨.ofDefinition location definition, members, none⟩)
  | enum {definitions : List EnumValueDefinition} :
      definition.content = .enum definitions →
      definitions.isEmpty = false →
      (definitions.map EnumValueDefinition.name).Nodup →
      DefinedBy location definition
        (.enum
          ⟨.ofDefinition location definition,
            definitions.map fun value =>
              Declared.enumValue
                (location.moved value.position) value⟩)
  | inputObject {definitions : List InputValueDefinition}
      {fields : Entries InputValue} :
      definition.content = .inputObject definitions →
      Declared.inputFields definition.name location
        definitions = .ok fields →
      DefinedBy location definition
        (.inputObject
          ⟨.ofDefinition location definition, fields⟩)

variable {location : SourceLocation}
variable {definition : TypeDefinition} {type : TypeDef}

/- A definition that succeeds is one of its kind. -/
theorem definedBy_of_ofDefinition
    (h : ofDefinition location definition = .ok type) :
    DefinedBy location definition type := by
  unfold ofDefinition at h
  simp only at h
  split at h
  · next hContent =>
      cases h
      exact .scalar hContent
  · next interfaces definitions hContent =>
      rcases Results.bind_eq_ok_iff.1 h with
        ⟨fields, hFields, h⟩
      rcases Results.bind_eq_ok_iff.1 h with
        ⟨listed, hListed, h⟩
      cases h
      rcases (Declared.interfaces_eq_ok_iff _ _ _ _ _ _).1
        hListed with ⟨hFresh, -, rfl⟩
      exact .object hContent hFields hFresh.nodup
  · next interfaces definitions hContent =>
      rcases Results.bind_eq_ok_iff.1 h with
        ⟨fields, hFields, h⟩
      rcases Results.bind_eq_ok_iff.1 h with
        ⟨listed, hListed, h⟩
      cases h
      rcases (Declared.interfaces_eq_ok_iff _ _ _ _ _ _).1
        hListed with ⟨hFresh, hSelf, rfl⟩
      refine .interface hContent hFields hFresh.nodup ?_
      intro hName
      exact hSelf _ hName ⟨rfl, rfl⟩
  · next members hContent =>
      rcases Results.bind_eq_ok_iff.1 h with
        ⟨listed, hListed, h⟩
      cases h
      rcases (Declared.members_eq_ok_iff _ _ _ _ _).1 hListed
        with ⟨hFresh, rfl⟩
      exact .union hContent hFresh.nodup
  · next definitions hContent =>
      split at h
      · cases h
      · next hSome =>
          rcases Results.bind_eq_ok_iff.1 h with
            ⟨values, hValues, h⟩
          cases h
          rcases (Declared.values_eq_ok_iff _ _ _ _ _ _).1
            hValues with ⟨hFresh, rfl⟩
          exact .enum hContent (Bool.eq_false_iff.2 hSome)
            hFresh.nodup
  · next definitions hContent =>
      rcases Results.bind_eq_ok_iff.1 h with
        ⟨fields, hFields, h⟩
      cases h
      exact .inputObject hContent hFields

/- What is defined is read from its definition. -/
theorem DefinedBy.ofDefinition_eq
    (h : DefinedBy location definition type) :
    ofDefinition location definition = .ok type := by
  cases h with
  | scalar hContent => simp only [ofDefinition, hContent]
  | @object interfaces _ _ hContent hFields hNodup =>
      have hListed :=
        (Declared.interfaces_eq_ok_iff definition.name .object
          location [] interfaces _).2
          ⟨Fresh.nil_iff.2 hNodup, by simp, rfl⟩
      simp only [ofDefinition, hContent, hFields, hListed]
      rfl
  | @interface interfaces _ _ hContent hFields hNodup hSelf =>
      have hOthers : ∀ name ∈ interfaces,
          ¬ (TypeKind.interface = .interface ∧
            name = definition.name) := by
        rintro name hName ⟨-, rfl⟩
        exact hSelf hName
      have hListed :=
        (Declared.interfaces_eq_ok_iff definition.name .interface
          location [] interfaces _).2
          ⟨Fresh.nil_iff.2 hNodup, hOthers, rfl⟩
      simp only [ofDefinition, hContent, hFields, hListed]
      rfl
  | @union members hContent hNodup =>
      have hListed :=
        (Declared.members_eq_ok_iff definition.name location []
          members _).2 ⟨Fresh.nil_iff.2 hNodup, rfl⟩
      simp only [ofDefinition, hContent, hListed]
      rfl
  | @enum definitions hContent hSome hNodup =>
      have hValues :=
        (Declared.values_eq_ok_iff definition.name location
          location [] definitions _).2
          ⟨Fresh.nil_iff.2 hNodup, rfl⟩
      simp only [ofDefinition, hContent, hSome, hValues]
      rfl
  | inputObject hContent hFields =>
      simp only [ofDefinition, hContent, hFields]
      rfl

theorem ofDefinition_eq_ok_iff :
    ofDefinition location definition = .ok type ↔
      DefinedBy location definition type :=
  ⟨definedBy_of_ofDefinition, DefinedBy.ofDefinition_eq⟩

end TypeDef

------------------------------------------------------------
-- Extended Types
------------------------------------------------------------

namespace TypeDef

/- What an extension makes of a type of its kind. -/
inductive Extends
    (location : SourceLocation)
    (extension : TypeExtension) : TypeDef → TypeDef → Prop where
  | scalar {type : ScalarType} :
      extension.content = .scalar →
      Extends location extension (.scalar type)
        (.scalar (type.extend location extension))
  | object {type : ObjectType} {interfaces : List String}
      {definitions : List FieldDefinition}
      {fields : Entries OutputField} :
      extension.content = .object interfaces definitions →
      Declared.fields extension.name location definitions =
        .ok fields →
      type.shape.Admits interfaces fields →
      Extends location extension (.object type)
        (.object
          { type with
            header := type.header.extend location extension
            shape := type.shape.add interfaces fields })
  | interface {type : InterfaceType} {interfaces : List String}
      {definitions : List FieldDefinition}
      {fields : Entries OutputField} :
      extension.content = .interface interfaces definitions →
      Declared.fields extension.name location definitions =
        .ok fields →
      extension.name ∉ interfaces →
      type.shape.Admits interfaces fields →
      Extends location extension (.interface type)
        (.interface
          { type with
            header := type.header.extend location extension
            shape := type.shape.add interfaces fields })
  | union {type : UnionType} {members : List String} :
      extension.content = .union members →
      Fresh type.listed members →
      Extends location extension (.union type)
        (.union
          { type with
            header := type.header.extend location extension
            listed := type.listed ++ members })
  | enum {type : EnumType}
      {definitions : List EnumValueDefinition} :
      extension.content = .enum definitions →
      Fresh (type.values.map EnumValue.name)
        (definitions.map EnumValueDefinition.name) →
      Extends location extension (.enum type)
        (.enum
          { type with
            header := type.header.extend location extension
            values := type.values ++
              definitions.map fun definition =>
                Declared.enumValue
                  (location.moved definition.position)
                  definition })
  | inputObject {type : InputObjectType}
      {definitions : List InputValueDefinition}
      {fields : Entries InputValue} :
      extension.content = .inputObject definitions →
      Declared.inputFields extension.name location definitions =
        .ok fields →
      Fresh type.fields.names fields.names →
      Extends location extension (.inputObject type)
        (.inputObject
          { type with
            header := type.header.extend location extension
            fields := type.fields ++ fields })

variable {location location' : SourceLocation}
variable {extension extension' : TypeExtension}
variable {type type' next last : TypeDef}

/- Members of a union keep their names when they get places. -/
private theorem names_listed
    (listed : List String)
    (place : SourceLocation) :
    Entries.names (listed.map fun member => (member, place)) =
      listed := by
  simp [Entries.names, Function.comp_def]

/- An extension that succeeds is one of the kind of the type. -/
theorem extends_of_extend
    (h : type.extend location extension = .ok next) :
    Extends location extension type next := by
  unfold extend at h
  split at h
  · next type hContent =>
      cases h
      exact .scalar hContent
  · next type interfaces definitions hContent =>
      rcases Results.bind_eq_ok_iff.1 h with ⟨shape, hShape, h⟩
      cases h
      rcases FieldShape.extend_eq_ok_iff.1 hShape with
        ⟨fields, hFields, -, hAdmits, rfl⟩
      exact .object hContent hFields hAdmits
  · next type interfaces definitions hContent =>
      rcases Results.bind_eq_ok_iff.1 h with ⟨shape, hShape, h⟩
      cases h
      rcases FieldShape.extend_eq_ok_iff.1 hShape with
        ⟨fields, hFields, hSelf, hAdmits, rfl⟩
      refine .interface hContent hFields ?_ hAdmits
      intro hName
      exact hSelf _ hName ⟨rfl, rfl⟩
  · next type members hContent =>
      rcases Results.bind_eq_ok_iff.1 h with
        ⟨listed, hListed, h⟩
      cases h
      rcases (Declared.members_eq_ok_iff _ _ _ _ _).1 hListed
        with ⟨hFresh, rfl⟩
      rw [names_listed] at hFresh ⊢
      exact .union hContent hFresh
  · next type definitions hContent =>
      rcases Results.bind_eq_ok_iff.1 h with
        ⟨values, hValues, h⟩
      cases h
      rcases (Declared.values_eq_ok_iff _ _ _ _ _ _).1 hValues
        with ⟨hFresh, rfl⟩
      exact .enum hContent hFresh
  · next type definitions hContent =>
      rcases Results.bind_eq_ok_iff.1 h with ⟨added, hAdded, h⟩
      rcases Results.bind_eq_ok_iff.1 h with
        ⟨fields, hFields, h⟩
      cases h
      rcases (Declared.extendBody_eq_ok_iff _ _ _ _ _).1 hFields
        with ⟨hFresh, rfl⟩
      exact .inputObject hContent hAdded hFresh
  · cases h

/- An extension of the kind of the type succeeds. -/
theorem Extends.extend_eq
    (h : Extends location extension type next) :
    type.extend location extension = .ok next := by
  cases h with
  | scalar hContent => simp [extend, hContent]
  | @object type interfaces definitions fields hContent hFields
      hAdmits =>
      have hShape :
          type.shape.extend extension.name .object location
              interfaces definitions =
            .ok (type.shape.add interfaces fields) :=
        FieldShape.extend_eq_ok_iff.2
          ⟨fields, hFields, by simp, hAdmits, rfl⟩
      simp only [extend, hContent, hShape]
      rfl
  | @interface type interfaces definitions fields hContent
      hFields hSelf hAdmits =>
      have hOthers : ∀ name ∈ interfaces,
          ¬ (TypeKind.interface = .interface ∧
            name = extension.name) := by
        rintro name hName ⟨-, rfl⟩
        exact hSelf hName
      have hShape :=
        FieldShape.extend_eq_ok_iff.2
          ⟨fields, hFields, hOthers, hAdmits, rfl⟩
      simp only [extend, hContent, hShape]
      rfl
  | @union type members hContent hFresh =>
      have hNames := names_listed type.listed
        type.header.location
      have hListed :=
        (Declared.members_eq_ok_iff extension.name location
          (type.listed.map fun member =>
            (member, type.header.location)) members _).2
          ⟨hNames.symm ▸ hFresh, rfl⟩
      rw [hNames] at hListed
      simp only [extend, hContent, hListed]
      rfl
  | @enum type definitions hContent hFresh =>
      have hValues :=
        (Declared.values_eq_ok_iff extension.name
          type.header.location location _ _ _).2 ⟨hFresh, rfl⟩
      simp only [extend, hContent, hValues]
      rfl
  | inputObject hContent hAdded hFresh =>
      have hFields :=
        (Declared.extendBody_eq_ok_iff extension.name
          InputValue.location _ _ _).2 ⟨hFresh, rfl⟩
      simp only [extend, hContent]
      refine Results.bind_eq_ok_iff.2 ⟨_, hAdded, ?_⟩
      exact Results.bind_eq_ok_iff.2 ⟨_, hFields, rfl⟩

theorem extend_eq_ok_iff :
    type.extend location extension = .ok next ↔
      Extends location extension type next :=
  ⟨extends_of_extend, Extends.extend_eq⟩

/- Types that are alike are extended alike. -/
theorem Extends.congr
    (h : Extends location extension type next)
    (hAlike : type.Alike type') :
    ∃ next', Extends location extension type' next' ∧
      next.Alike next' := by
  cases h with
  | scalar hContent =>
      cases hAlike with
      | scalar hHeader hSerialize hValue hLiteral =>
          exact
            ⟨_, .scalar hContent,
              .scalar (hHeader.extend location extension)
                hSerialize hValue hLiteral⟩
  | @object _ interfaces _ fields hContent hFields hAdmits =>
      cases hAlike with
      | object hHeader hShape hHook =>
          exact
            ⟨_, .object hContent hFields (hAdmits.congr hShape),
              .object (hHeader.extend location extension)
                (hShape.add interfaces fields) hHook⟩
  | @interface _ interfaces _ fields hContent hFields hSelf
      hAdmits =>
      cases hAlike with
      | interface hHeader hShape hHook =>
          exact
            ⟨_,
              .interface hContent hFields hSelf
                (hAdmits.congr hShape),
              .interface (hHeader.extend location extension)
                (hShape.add interfaces fields) hHook⟩
  | union hContent hFresh =>
      cases hAlike with
      | union hHeader hListed hHook =>
          exact
            ⟨_,
              .union hContent
                (hFresh.congr fun _ => hListed.mem_iff),
              .union (hHeader.extend location extension)
                (hListed.append_right _) hHook⟩
  | enum hContent hFresh =>
      cases hAlike with
      | enum hHeader hValues =>
          have hNames := hValues.map EnumValue.name
          exact
            ⟨_,
              .enum hContent
                (hFresh.congr fun _ => hNames.mem_iff),
              .enum (hHeader.extend location extension)
                (hValues.append_right _)⟩
  | @inputObject _ _ fields hContent hAdded hFresh =>
      cases hAlike with
      | inputObject hHeader hFields =>
          exact
            ⟨_,
              .inputObject hContent hAdded
                (hFresh.congr hFields.mem_names_iff),
              .inputObject (hHeader.extend location extension)
                (hFields.append fields)⟩

/- Two extensions of a type may come in either order. -/
theorem Extends.swap
    (hFirst : Extends location extension type next)
    (hLater : Extends location' extension' next last) :
    ∃ next' last',
      Extends location' extension' type next' ∧
        Extends location extension next' last' ∧
        last.Alike last' := by
  have hHeader := fun header : TypeHeader =>
    header.alike_extend_swap location location' extension
      extension'
  cases hFirst with
  | scalar hContent =>
      cases hLater with
      | scalar hContent' =>
          exact
            ⟨_, _, .scalar hContent', .scalar hContent,
              .scalar (hHeader _) rfl rfl rfl⟩
  | object hContent hFields hAdmits =>
      cases hLater with
      | object hContent' hFields' hAdmits' =>
          rcases hAdmits.swap hAdmits' with
            ⟨hNow, hThen, hShape⟩
          exact
            ⟨_, _, .object hContent' hFields' hNow,
              .object hContent hFields hThen,
              .object (hHeader _) hShape rfl⟩
  | interface hContent hFields hSelf hAdmits =>
      cases hLater with
      | interface hContent' hFields' hSelf' hAdmits' =>
          rcases hAdmits.swap hAdmits' with
            ⟨hNow, hThen, hShape⟩
          exact
            ⟨_, _, .interface hContent' hFields' hSelf' hNow,
              .interface hContent hFields hSelf hThen,
              .interface (hHeader _) hShape rfl⟩
  | @union type members hContent hFresh =>
      cases hLater with
      | @union _ members' hContent' hFresh' =>
          rcases hFresh.swap hFresh' with ⟨hNow, hThen⟩
          have hListed :=
            append_swap_perm type.listed members members'
          exact
            ⟨_, _, .union hContent' hNow, .union hContent hThen,
              .union (hHeader _) hListed rfl⟩
  | enum hContent hFresh =>
      cases hLater with
      | enum hContent' hFresh' =>
          rw [List.map_append, Declared.names_enumValues]
            at hFresh'
          rcases hFresh.swap hFresh' with ⟨hNow, hThen⟩
          refine
            ⟨_, _, .enum hContent' hNow, .enum hContent ?_,
              .enum (hHeader _) (append_swap_perm _ _ _)⟩
          rw [List.map_append, Declared.names_enumValues]
          exact hThen
  | @inputObject type _ fields hContent hAdded hFresh =>
      cases hLater with
      | @inputObject _ _ fields' hContent' hAdded' hFresh' =>
          have hNames : Fresh
              (type.fields.names ++ fields.names)
              fields'.names := by
            simpa [Entries.names] using hFresh'
          rcases hFresh.swap hNames with ⟨hNow, hThen⟩
          refine
            ⟨_, _, .inputObject hContent' hAdded' hNow,
              .inputObject hContent hAdded ?_,
              .inputObject (hHeader _)
                (Entries.alike_append_swap hNames)⟩
          simpa [Entries.names] using hThen

/- An extension keeps kind, name and location of a type. -/
theorem Extends.kept
    (h : Extends location extension type next) :
    next.kind = type.kind ∧ next.name = type.name ∧
      next.location = type.location := by
  cases h <;> exact ⟨rfl, rfl, rfl⟩

end TypeDef

end GraphQL
