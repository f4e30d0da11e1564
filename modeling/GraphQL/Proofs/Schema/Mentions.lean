import GraphQL.Proofs.Schema.DeclaredMembers
import GraphQL.Validation.KnownTypeNames

/-
  The type names that types mention.

  A type mentions what its definition and its extensions refer
  to, and nothing else. Of two arguments with one name only the
  later one counts, so the earlier one may be lost.

  Key definitions include:
    * `TypeContent.mentions`, `TypeDef.mentions`
    * `TypeContent.NamesArguments`

  Main declarations:
    * `TypeDef.mentions_ofDefinition`
    * `TypeDef.Extends.mentions`
-/

------------------------------------------------------------
-- What Definitions Refer To
------------------------------------------------------------

namespace GraphQL

/- The type names in a field of a definition. -/
def FieldDefinition.mentions (definition : FieldDefinition) :
    List String :=
  definition.type.innermost ::
    definition.arguments.map fun argument =>
      argument.type.innermost

namespace TypeContent

/- The type names in the content of a definition. -/
def mentions : TypeContent → List String
| .object interfaces fields =>
    interfaces ++ fields.flatMap FieldDefinition.mentions
| .interface interfaces fields =>
    interfaces ++ fields.flatMap FieldDefinition.mentions
| .union members => members
| .inputObject fields =>
    fields.map fun field => field.type.innermost
| _ => []

/- The fields of an object or interface. -/
def fields : TypeContent → List FieldDefinition
| .object _ fields => fields
| .interface _ fields => fields
| _ => []

/- No field has two arguments of one name. -/
def NamesArguments (content : TypeContent) : Prop :=
  ∀ field ∈ content.fields,
    (field.arguments.map InputValueDefinition.name).Nodup

end TypeContent

namespace KnownTypeNames

theorem names_namesAt (pos : Position) (names : List String) :
    (namesAt pos names).map Reference.name = names := by
  simp [namesAt, Function.comp_def]

theorem names_inputReferences
    (values : List InputValueDefinition) :
    (inputReferences values).map Reference.name =
      values.map fun value => value.type.innermost := by
  simp [inputReferences, Function.comp_def]

theorem names_fieldReferences (fields : List FieldDefinition) :
    (fieldReferences fields).map Reference.name =
      fields.flatMap FieldDefinition.mentions := by
  unfold fieldReferences
  rw [List.map_flatMap]
  congr 1
  funext field
  rw [List.map_cons, names_inputReferences]
  rfl

/- The references of a content are the names it mentions. -/
theorem names_contentReferences
    (pos : Position)
    (content : TypeContent) :
    (contentReferences pos content).map Reference.name =
      content.mentions := by
  cases content with
  | object interfaces fields =>
      simp only [contentReferences, List.map_append,
        names_namesAt, names_fieldReferences,
        TypeContent.mentions]
  | interface interfaces fields =>
      simp only [contentReferences, List.map_append,
        names_namesAt, names_fieldReferences,
        TypeContent.mentions]
  | union members => exact names_namesAt pos members
  | inputObject fields => exact names_inputReferences fields
  | scalar => rfl
  | enum values => rfl

end KnownTypeNames

------------------------------------------------------------
-- What Types Refer To
------------------------------------------------------------

/- The type names in a field. -/
def OutputField.mentions (field : OutputField) : List String :=
  field.type.innermost ::
    field.arguments.map fun argument =>
      argument.2.type.innermost

/- The type names in a body. -/
def FieldShape.mentions (shape : FieldShape) : List String :=
  shape.interfaces ++
    shape.fields.flatMap fun entry => entry.2.mentions

/- The type names in a type. -/
def TypeDef.mentions : TypeDef → List String
| object type => type.shape.mentions
| interface type => type.shape.mentions
| union type => type.listed
| inputObject type =>
    type.fields.map fun entry => entry.2.type.innermost
| _ => []

/- Wrappers leave the name of a type expression alone. -/
theorem TypeRef.innermost_ofExpr
    (location : SourceLocation)
    (expr : TypeExpr) :
    (ofExpr location expr).innermost = expr.innermost := by
  have hWith : ∀ nullable,
      (ofExprWith location nullable expr).innermost =
        expr.innermost := by
    induction expr with
    | named name => exact fun _ => rfl
    | list inner ih => exact fun _ => ih true
    | nonNull inner ih => exact fun _ => ih false
  exact hWith true

namespace Entries

variable {α : Type}

/- What is stored is one of the pairs, and is all of them if
   their names are distinct. -/
theorem mem_insertAll
    {pairs : List (String × α)}
    {entries : Entries α} :
    ∀ entry ∈ insertAll entries pairs,
      entry ∈ entries ∨ ∃ pair ∈ pairs, entry.2 = pair.2 := by
  induction pairs generalizing entries with
  | nil => exact fun entry hEntry => .inl hEntry
  | cons pair rest ih =>
      intro entry hEntry
      rcases ih entry hEntry with hBefore | hRest
      · have hInsert : ∀ entries : Entries α,
            entry ∈ insert entries pair.1 pair.2 →
            entry ∈ entries ∨ entry.2 = pair.2 := by
          intro entries hMem
          induction entries with
          | nil =>
              rw [List.mem_singleton.1 hMem]
              exact .inr rfl
          | cons first others ihOthers =>
              unfold insert at hMem
              split at hMem
              · rcases List.mem_cons.1 hMem with rfl | hLater
                · exact .inr rfl
                · exact .inl (List.mem_cons_of_mem _ hLater)
              · rcases List.mem_cons.1 hMem with rfl | hLater
                · exact .inl List.mem_cons_self
                · exact (ihOthers hLater).imp
                    (List.mem_cons_of_mem _) id
        rcases hInsert entries hBefore with hOld | hNew
        · exact .inl hOld
        · exact .inr ⟨pair, List.mem_cons_self, hNew⟩
      · rcases hRest with ⟨other, hOther, hSame⟩
        exact .inr
          ⟨other, List.mem_cons_of_mem _ hOther, hSame⟩

theorem insertAll_of_fresh
    {pairs : List (String × α)}
    {entries : Entries α}
    (h : Fresh (names entries) (pairs.map Prod.fst)) :
    insertAll entries pairs = entries ++ pairs := by
  induction pairs generalizing entries with
  | nil => exact (List.append_nil entries).symm
  | cons pair rest ih =>
      rw [List.map_cons, Fresh.cons_iff] at h
      have hNext : insertAll entries (pair :: rest) =
          insertAll (insert entries pair.1 pair.2) rest := rfl
      rw [hNext, Declared.insert_of_not_mem h.1, ih]
      · simp
      · simpa [names] using h.2

end Entries

namespace Declared

variable {type field : String} {location : SourceLocation}

@[simp]
theorem innermost_named
    (location : SourceLocation)
    (definition : InputValueDefinition) :
    (named location definition).2.type.innermost =
      definition.type.innermost :=
  TypeRef.innermost_ofExpr _ _

/- Arguments mention what their definitions mention. -/
theorem mentions_of_arguments
    {definitions : List InputValueDefinition}
    {result : Entries InputValue}
    (h : arguments type field location definitions =
      .ok result)
    {name : String}
    (hName : name ∈
      result.map fun entry => entry.2.type.innermost) :
    name ∈ definitions.map fun definition =>
      definition.type.innermost := by
  rcases List.mem_map.1 hName with ⟨entry, hEntry, rfl⟩
  rw [(arguments_eq_ok_iff.1 h).2] at hEntry
  rcases Entries.mem_insertAll entry hEntry with
    hNone | ⟨pair, hPair, hSame⟩
  · cases hNone
  · rcases List.mem_map.1 hPair with ⟨definition, hMem, rfl⟩
    rw [hSame, innermost_named]
    exact List.mem_map_of_mem hMem

/- None is lost if their names are distinct. -/
theorem arguments_of_nodup
    {definitions : List InputValueDefinition}
    {result : Entries InputValue}
    (h : arguments type field location definitions =
      .ok result)
    (hNames :
      (definitions.map InputValueDefinition.name).Nodup) :
    result = definitions.map (named location) := by
  rw [(arguments_eq_ok_iff.1 h).2]
  apply Entries.insertAll_of_fresh
  refine ⟨?_, by simp [Entries.names]⟩
  simpa [named, Function.comp_def] using hNames

/- A field mentions what its definition mentions. -/
theorem Defines.mentions
    {definition : FieldDefinition}
    {entry : String × OutputField}
    (h : Defines type location definition entry) :
    entry.2.mentions ⊆ definition.mentions ∧
      ((definition.arguments.map
          InputValueDefinition.name).Nodup →
        entry.2.mentions = definition.mentions) := by
  rcases h with ⟨given, hGiven, rfl⟩
  simp only [OutputField.mentions, FieldDefinition.mentions,
    outputField, TypeRef.innermost_ofExpr]
  constructor
  · apply List.cons_subset_cons
    exact fun name => mentions_of_arguments hGiven
  · intro hNames
    rw [arguments_of_nodup hGiven hNames]
    simp [Function.comp_def]

/- Fields mention what their definitions mention. -/
theorem mentions_of_fields
    {definitions : List FieldDefinition}
    {result : Entries OutputField}
    (h : fields type location definitions = .ok result) :
    (result.flatMap fun entry => entry.2.mentions) ⊆
        definitions.flatMap FieldDefinition.mentions ∧
      ((∀ definition ∈ definitions,
          (definition.arguments.map
            InputValueDefinition.name).Nodup) →
        (result.flatMap fun entry => entry.2.mentions) =
          definitions.flatMap FieldDefinition.mentions) := by
  have hAll := (fields_eq_ok_iff.1 h).2.2
  clear h
  induction hAll with
  | nil => exact ⟨List.Subset.refl _, fun _ => rfl⟩
  | cons hFirst _ ih =>
      simp only [List.flatMap_cons]
      constructor
      · exact List.append_subset.2
          ⟨List.subset_append_of_subset_left _
              hFirst.mentions.1,
            List.subset_append_of_subset_right _ ih.1⟩
      · intro hNames
        rw [List.forall_mem_cons] at hNames
        rw [hFirst.mentions.2 hNames.1, ih.2 hNames.2]

end Declared

------------------------------------------------------------
-- Types
------------------------------------------------------------

namespace TypeDef

variable {location : SourceLocation} {type next : TypeDef}

/- A body mentions what its declarations mention. -/
theorem mentions_of_body
    {name : String}
    {definitions : List FieldDefinition}
    {body : Entries OutputField}
    (interfaces : List String)
    (hBody : Declared.fields name location definitions =
      .ok body) :
    FieldShape.mentions ⟨body, interfaces, none⟩ ⊆
        interfaces ++
          definitions.flatMap FieldDefinition.mentions ∧
      ((∀ definition ∈ definitions,
          (definition.arguments.map
            InputValueDefinition.name).Nodup) →
        FieldShape.mentions ⟨body, interfaces, none⟩ =
          interfaces ++
            definitions.flatMap FieldDefinition.mentions) := by
  have hFields := Declared.mentions_of_fields hBody
  simp only [FieldShape.mentions]
  constructor
  · exact List.append_subset.2
      ⟨List.subset_append_left _ _,
        List.subset_append_of_subset_right _ hFields.1⟩
  · intro hNames
    rw [hFields.2 hNames]

/- A type mentions what its definition mentions. -/
theorem mentions_ofDefinition
    {definition : TypeDefinition}
    (h : ofDefinition location definition = .ok type) :
    type.mentions ⊆ definition.content.mentions ∧
      (definition.content.NamesArguments →
        type.mentions = definition.content.mentions) := by
  cases ofDefinition_eq_ok_iff.1 h with
  | scalar hContent =>
      rw [hContent]
      exact ⟨List.Subset.refl _, fun _ => rfl⟩
  | @object interfaces _ _ hContent hBody _ =>
      rw [hContent]
      exact mentions_of_body interfaces hBody
  | @interface interfaces _ _ hContent hBody _ _ =>
      rw [hContent]
      exact mentions_of_body interfaces hBody
  | union hContent _ =>
      rw [hContent]
      exact ⟨List.Subset.refl _, fun _ => rfl⟩
  | enum hContent _ _ =>
      rw [hContent]
      exact ⟨List.Subset.refl _, fun _ => rfl⟩
  | inputObject hContent hBody =>
      rw [hContent]
      simp only [mentions, TypeContent.mentions,
        (Declared.inputFields_eq_ok_iff.1 hBody).2.2,
        List.map_map, Function.comp_def,
        Declared.innermost_named]
      exact ⟨List.Subset.refl _, fun _ => trivial⟩

/- A body that is extended mentions more. -/
theorem mem_mentions_add
    (shape : FieldShape)
    (interfaces : List String)
    (fields : Entries OutputField)
    (name : String) :
    name ∈ (shape.add interfaces fields).mentions ↔
      name ∈ shape.mentions ∨
        name ∈ interfaces ++
          fields.flatMap fun entry => entry.2.mentions := by
  simp only [FieldShape.mentions, FieldShape.add,
    List.flatMap_append, List.mem_append]
  tauto

/-
  An extension mentions what is mentioned already and what its
  content mentions.
-/
theorem Extends.mentions
    {extension : TypeExtension}
    (h : Extends location extension type next) :
    (∀ name ∈ next.mentions,
      name ∈ type.mentions ∨
        name ∈ extension.content.mentions) ∧
    type.mentions ⊆ next.mentions ∧
    (extension.content.NamesArguments →
      extension.content.mentions ⊆ next.mentions) := by
  have hShape : ∀ {shape : FieldShape} {interfaces fields body},
      Declared.fields extension.name location fields =
          .ok body →
      (∀ name ∈ (shape.add interfaces body).mentions,
        name ∈ shape.mentions ∨ name ∈ interfaces ++
          fields.flatMap FieldDefinition.mentions) ∧
      shape.mentions ⊆ (shape.add interfaces body).mentions ∧
      ((∀ field ∈ fields,
          (field.arguments.map
            InputValueDefinition.name).Nodup) →
        interfaces ++ fields.flatMap FieldDefinition.mentions ⊆
          (shape.add interfaces body).mentions) := by
    intro shape interfaces fields body hBody
    have hFields := Declared.mentions_of_fields hBody
    refine ⟨fun name hName => ?_, fun name hName => ?_,
      fun hNames name hName => ?_⟩
    · refine ((mem_mentions_add _ _ _ _).1 hName).imp id ?_
      intro hAdded
      rcases List.mem_append.1 hAdded with hInterface | hField
      · exact List.mem_append_left _ hInterface
      · exact List.mem_append_right _ (hFields.1 hField)
    · exact (mem_mentions_add _ _ _ _).2 (.inl hName)
    · apply (mem_mentions_add _ _ _ _).2
      rw [hFields.2 hNames]
      exact .inr hName
  cases h with
  | scalar hContent =>
      rw [hContent]
      exact ⟨fun _ h => .inl h, List.Subset.refl _, by
        simp [TypeContent.mentions]⟩
  | enum hContent _ =>
      rw [hContent]
      exact ⟨fun _ h => .inl h, List.Subset.refl _, by
        simp [TypeContent.mentions]⟩
  | object hContent hFields _ =>
      rw [hContent]
      exact hShape hFields
  | interface hContent hFields _ _ =>
      rw [hContent]
      exact hShape hFields
  | union hContent _ =>
      rw [hContent]
      exact
        ⟨fun _ => List.mem_append.1, List.subset_append_left _ _,
          fun _ => List.subset_append_right _ _⟩
  | inputObject hContent hFields _ =>
      rw [hContent,
        (Declared.inputFields_eq_ok_iff.1 hFields).2.2]
      simp only [TypeDef.mentions, TypeContent.mentions,
        List.map_append, List.map_map, Function.comp_def,
        Declared.innermost_named]
      exact
        ⟨fun _ => List.mem_append.1, List.subset_append_left _ _,
          fun _ => List.subset_append_right _ _⟩

end TypeDef

end GraphQL
