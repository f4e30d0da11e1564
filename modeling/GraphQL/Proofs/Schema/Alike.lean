import Mathlib.Data.List.Forall2
import Mathlib.Data.List.Perm.Basic
import GraphQL.Schema.Basic
import GraphQL.Schema.Draft

/-
  Types and schemas that are alike: equal up to the order in
  which extensions added to them.

  Key definitions include:
    * `Entries.Alike`, `TypeHeader.Alike`, `FieldShape.Alike`
    * `TypeDef.Alike`: all but the address that specifies a
      scalar
    * `TypeDef.Agrees`, `Schema.Agrees`
    * `Draft.Alike`, `TypeGraph.Alike`
    * `TypeGraph.Matches`: graphs that are alike name by name

  Main declarations:
    * `TypeDef.alike_equivalence`
    * `TypeGraph.Alike.lookup`
    * `rel_find?_of_forall₂`
-/

------------------------------------------------------------
-- Parts Of Types
------------------------------------------------------------

namespace GraphQL

/- The same entries, and the same one under each name. -/
structure Entries.Alike
    {α : Type}
    (first second : Entries α) : Prop where
  perm : first.Perm second
  get?_eq : ∀ name,
    Entries.get? first name = Entries.get? second name

/- Entries that are alike have the same names. -/
theorem Entries.Alike.mem_names_iff
    {α : Type}
    {first second : Entries α}
    (h : first.Alike second)
    (name : String) :
    name ∈ first.names ↔ name ∈ second.names :=
  (h.perm.map Prod.fst).mem_iff

theorem Entries.alike_equivalence {α : Type} :
    Equivalence (Entries.Alike (α := α)) where
  refl entries := ⟨.refl entries, fun _ => rfl⟩
  symm h := ⟨h.perm.symm, fun name => (h.get?_eq name).symm⟩
  trans h h' :=
    ⟨h.perm.trans h'.perm, fun name =>
      (h.get?_eq name).trans (h'.get?_eq name)⟩

/- Equal up to the order of directives and extensions. -/
structure TypeHeader.Alike
    (first second : TypeHeader) : Prop where
  name_eq : first.name = second.name
  location_eq : first.location = second.location
  description_eq : first.description = second.description
  metadata_eq : first.metadata = second.metadata
  directives : first.directives.Perm second.directives
  extensions : first.extensions.Perm second.extensions

theorem TypeHeader.alike_equivalence :
    Equivalence TypeHeader.Alike where
  refl _ := ⟨rfl, rfl, rfl, rfl, .refl _, .refl _⟩
  symm h :=
    ⟨h.name_eq.symm, h.location_eq.symm, h.description_eq.symm,
      h.metadata_eq.symm, h.directives.symm, h.extensions.symm⟩
  trans h h' :=
    ⟨h.name_eq.trans h'.name_eq,
      h.location_eq.trans h'.location_eq,
      h.description_eq.trans h'.description_eq,
      h.metadata_eq.trans h'.metadata_eq,
      h.directives.trans h'.directives,
      h.extensions.trans h'.extensions⟩

/- Equal up to the order of fields and interfaces. -/
structure FieldShape.Alike
    (first second : FieldShape) : Prop where
  fields : first.fields.Alike second.fields
  interfaces : first.interfaces.Perm second.interfaces
  resolveField_eq : first.resolveField = second.resolveField

theorem FieldShape.alike_equivalence :
    Equivalence FieldShape.Alike where
  refl _ := ⟨Entries.alike_equivalence.refl _, .refl _, rfl⟩
  symm h :=
    ⟨Entries.alike_equivalence.symm h.fields,
      h.interfaces.symm, h.resolveField_eq.symm⟩
  trans h h' :=
    ⟨Entries.alike_equivalence.trans h.fields h'.fields,
      h.interfaces.trans h'.interfaces,
      h.resolveField_eq.trans h'.resolveField_eq⟩

------------------------------------------------------------
-- Types
------------------------------------------------------------

namespace TypeDef

/-
  Types of one kind that are equal up to the order of what they
  consist of. Addresses that specify scalars may differ.
-/
inductive Alike : TypeDef → TypeDef → Prop where
  | object {first second : ObjectType} :
      first.header.Alike second.header →
      first.shape.Alike second.shape →
      first.isTypeOf = second.isTypeOf →
      Alike (.object first) (.object second)
  | interface {first second : InterfaceType} :
      first.header.Alike second.header →
      first.shape.Alike second.shape →
      first.resolveType = second.resolveType →
      Alike (.interface first) (.interface second)
  | union {first second : UnionType} :
      first.header.Alike second.header →
      first.listed.Perm second.listed →
      first.resolveType = second.resolveType →
      Alike (.union first) (.union second)
  | enum {first second : EnumType} :
      first.header.Alike second.header →
      first.values.Perm second.values →
      Alike (.enum first) (.enum second)
  | scalar {first second : ScalarType} :
      first.header.Alike second.header →
      first.serialize = second.serialize →
      first.parseValue = second.parseValue →
      first.parseLiteral = second.parseLiteral →
      Alike (.scalar first) (.scalar second)
  | inputObject {first second : InputObjectType} :
      first.header.Alike second.header →
      first.fields.Alike second.fields →
      Alike (.inputObject first) (.inputObject second)

theorem Alike.refl (type : TypeDef) : type.Alike type := by
  have hHeader := TypeHeader.alike_equivalence.refl
  cases type with
  | object type =>
      exact .object (hHeader _)
        (FieldShape.alike_equivalence.refl _) rfl
  | interface type =>
      exact .interface (hHeader _)
        (FieldShape.alike_equivalence.refl _) rfl
  | union type => exact .union (hHeader _) (.refl _) rfl
  | enum type => exact .enum (hHeader _) (.refl _)
  | scalar type => exact .scalar (hHeader _) rfl rfl rfl
  | inputObject type =>
      exact .inputObject (hHeader _)
        (Entries.alike_equivalence.refl _)

theorem Alike.symm
    {first second : TypeDef}
    (h : first.Alike second) : second.Alike first := by
  have hHeader := @TypeHeader.alike_equivalence.symm
  cases h with
  | object h hShape hHook =>
      exact .object (hHeader h)
        (FieldShape.alike_equivalence.symm hShape) hHook.symm
  | interface h hShape hHook =>
      exact .interface (hHeader h)
        (FieldShape.alike_equivalence.symm hShape) hHook.symm
  | union h hListed hHook =>
      exact .union (hHeader h) hListed.symm hHook.symm
  | enum h hValues => exact .enum (hHeader h) hValues.symm
  | scalar h hSerialize hValue hLiteral =>
      exact .scalar (hHeader h) hSerialize.symm hValue.symm
        hLiteral.symm
  | inputObject h hFields =>
      exact .inputObject (hHeader h)
        (Entries.alike_equivalence.symm hFields)

theorem Alike.trans
    {first second third : TypeDef}
    (h : first.Alike second)
    (h' : second.Alike third) : first.Alike third := by
  have hHeader := @TypeHeader.alike_equivalence.trans
  cases h with
  | object hFirst hShape hHook =>
      cases h' with
      | object hSecond hShape' hHook' =>
          exact .object (hHeader hFirst hSecond)
            (FieldShape.alike_equivalence.trans hShape hShape')
            (hHook.trans hHook')
  | interface hFirst hShape hHook =>
      cases h' with
      | interface hSecond hShape' hHook' =>
          exact .interface (hHeader hFirst hSecond)
            (FieldShape.alike_equivalence.trans hShape hShape')
            (hHook.trans hHook')
  | union hFirst hListed hHook =>
      cases h' with
      | union hSecond hListed' hHook' =>
          exact .union (hHeader hFirst hSecond)
            (hListed.trans hListed') (hHook.trans hHook')
  | enum hFirst hValues =>
      cases h' with
      | enum hSecond hValues' =>
          exact .enum (hHeader hFirst hSecond)
            (hValues.trans hValues')
  | scalar hFirst hSerialize hValue hLiteral =>
      cases h' with
      | scalar hSecond hSerialize' hValue' hLiteral' =>
          exact .scalar (hHeader hFirst hSecond)
            (hSerialize.trans hSerialize')
            (hValue.trans hValue') (hLiteral.trans hLiteral')
  | inputObject hFirst hFields =>
      cases h' with
      | inputObject hSecond hFields' =>
          exact .inputObject (hHeader hFirst hSecond)
            (Entries.alike_equivalence.trans hFields hFields')

theorem alike_equivalence : Equivalence Alike where
  refl := Alike.refl
  symm := Alike.symm
  trans := Alike.trans

/- Types that are alike have headers that are. -/
theorem Alike.header
    {first second : TypeDef}
    (h : first.Alike second) :
    first.header.Alike second.header := by
  cases h <;> assumption

theorem Alike.name_eq
    {first second : TypeDef}
    (h : first.Alike second) : first.name = second.name :=
  h.header.name_eq

/- The address that specifies a scalar. -/
def specifiedBy? : TypeDef → Option String
| scalar type => type.specifiedBy
| _ => none

/- Types that are equal up to the order of their parts. -/
structure Agrees (first second : TypeDef) : Prop where
  alike : first.Alike second
  specifiedBy?_eq : first.specifiedBy? = second.specifiedBy?

end TypeDef

------------------------------------------------------------
-- Drafts And Graphs
------------------------------------------------------------

/- Lists of the same length are compared place by place. -/
theorem forall₂_equivalence
    {α : Type}
    {Like : α → α → Prop}
    (hLike : Equivalence Like) :
    Equivalence (List.Forall₂ Like) where
  refl items :=
    List.forall₂_same.2 fun item _ => hLike.refl item
  symm h := (h.imp fun _ _ hItems => hLike.symm hItems).flip
  trans {first second third} h h' := by
    induction h generalizing third with
    | nil =>
        cases h'
        exact .nil
    | cons hFirst _ ih =>
        cases h' with
        | cons hSecond hRest =>
            exact .cons (hLike.trans hFirst hSecond) (ih hRest)

/- Both are missing, or both are there and compared. -/
theorem optionRel_equivalence
    {α : Type}
    {Like : α → α → Prop}
    (hLike : Equivalence Like) :
    Equivalence (Option.Rel Like) where
  refl found := by
    cases found with
    | none => exact .none
    | some a => exact .some (hLike.refl a)
  symm h := by
    cases h with
    | none => exact .none
    | some hItems => exact .some (hLike.symm hItems)
  trans h h' := by
    cases h with
    | none => exact h'
    | some hFirst =>
        cases h' with
        | some hSecond => exact .some (hLike.trans hFirst hSecond)

/- What is compared is missing from both or from none. -/
theorem eq_none_iff_of_rel
    {α β : Type}
    {Like : α → β → Prop}
    {found : Option α}
    {found' : Option β}
    (h : Option.Rel Like found found') :
    found = none ↔ found' = none := by
  cases h <;> simp

/- What is there may be compared in a weaker way. -/
theorem optionRel_imp
    {α β : Type}
    {Like Weaker : α → β → Prop}
    {found : Option α}
    {found' : Option β}
    (hImp : ∀ a b, Like a b → Weaker a b)
    (h : Option.Rel Like found found') :
    Option.Rel Weaker found found' := by
  cases h with
  | none => exact .none
  | some hItems => exact .some (hImp _ _ hItems)

/- What is there has something to be compared with. -/
theorem exists_of_rel_some
    {α β : Type}
    {Like : α → β → Prop}
    {found : Option α}
    {b : β}
    (h : Option.Rel Like found (some b)) :
    ∃ a, found = some a ∧ Like a b := by
  cases h with
  | some hItems => exact ⟨_, rfl, hItems⟩

/- What is searched alike in related lists is related. -/
theorem rel_find?_of_same
    {α β : Type}
    {Like : α → β → Prop}
    {holds : α → Bool}
    {holds' : β → Bool}
    (hSame : ∀ a b, Like a b → holds a = holds' b)
    {items : List α}
    {items' : List β}
    (h : List.Forall₂ Like items items') :
    Option.Rel Like (items.find? holds)
      (items'.find? holds') := by
  induction h with
  | nil => exact .none
  | @cons item item' rest rest' hItem _ ih =>
      rw [List.find?_cons, List.find?_cons,
        ← hSame item item' hItem]
      cases holds item with
      | true => exact .some hItem
      | false => exact ih

/-
  What is found under a name in lists that are related place by
  place is related.
-/
theorem rel_find?_of_forall₂
    {α β : Type}
    {Like : α → β → Prop}
    {key : α → String}
    {key' : β → String}
    (hKey : ∀ a b, Like a b → key a = key' b)
    {items : List α}
    {items' : List β}
    (h : List.Forall₂ Like items items')
    (name : String) :
    Option.Rel Like
      (items.find? fun item => key item == name)
      (items'.find? fun item => key' item == name) := by
  refine rel_find?_of_same ?_ h
  intro a b hLike
  rw [hKey a b hLike]

/- The same types in the same order, whatever was touched. -/
def Draft.Alike (first second : Draft) : Prop :=
  List.Forall₂
    (fun entry entry' => entry.type.Alike entry'.type)
    first second

theorem Draft.alike_equivalence : Equivalence Draft.Alike :=
  forall₂_equivalence
    (TypeDef.alike_equivalence.comap DraftEntry.type)

namespace NamedType

/- The same built-in scalar, or defined types that are alike. -/
inductive Alike : NamedType → NamedType → Prop where
  | builtin {scalar : BuiltinScalar} :
      Alike (.builtin scalar) (.builtin scalar)
  | defined {first second : TypeDef} :
      first.Alike second →
      Alike (.defined first) (.defined second)

theorem Alike.name_eq
    {first second : NamedType}
    (h : first.Alike second) : first.name = second.name := by
  cases h with
  | builtin => rfl
  | defined hTypes => exact hTypes.name_eq

theorem alike_equivalence : Equivalence NamedType.Alike where
  refl type := by
    cases type with
    | builtin scalar => exact .builtin
    | defined type => exact .defined (.refl type)
  symm h := by
    cases h with
    | builtin => exact .builtin
    | defined hTypes => exact .defined hTypes.symm
  trans h h' := by
    cases h with
    | builtin => exact h'
    | defined hTypes =>
        cases h' with
        | defined hTypes' => exact .defined (hTypes.trans hTypes')

/- The same built-in scalar, or defined types that agree. -/
inductive Agrees : NamedType → NamedType → Prop where
  | builtin {scalar : BuiltinScalar} :
      Agrees (.builtin scalar) (.builtin scalar)
  | defined {first second : TypeDef} :
      first.Agrees second →
      Agrees (.defined first) (.defined second)

end NamedType

namespace TypeGraph

/- The same types in the same order. -/
def Alike (first second : TypeGraph) : Prop :=
  List.Forall₂ NamedType.Alike first.types second.types

theorem alike_equivalence : Equivalence TypeGraph.Alike :=
  (forall₂_equivalence NamedType.alike_equivalence).comap types

/- What is found of a name is alike. -/
theorem Alike.lookup
    {first second : TypeGraph}
    (h : first.Alike second)
    (name : String) :
    Option.Rel NamedType.Alike (first.lookup name)
      (second.lookup name) :=
  rel_find?_of_forall₂ (fun _ _ hTypes => hTypes.name_eq) h name

/-
  The same types under the same names, in whatever order the
  graphs have them.
-/
structure Matches (first second : TypeGraph) : Prop where
  lookup : ∀ name,
    Option.Rel NamedType.Alike (first.lookup name)
      (second.lookup name)

theorem Alike.matches
    {graph graph' : TypeGraph}
    (h : graph.Alike graph') : graph.Matches graph' :=
  ⟨h.lookup⟩

theorem matches_equivalence : Equivalence TypeGraph.Matches where
  refl graph := (alike_equivalence.refl graph).matches
  symm h :=
    ⟨fun name =>
      (optionRel_equivalence NamedType.alike_equivalence).symm
        (h.lookup name)⟩
  trans h h' :=
    ⟨fun name =>
      (optionRel_equivalence NamedType.alike_equivalence).trans
        (h.lookup name) (h'.lookup name)⟩

/- The same names are free in graphs that match. -/
theorem Matches.lookup_eq_none_iff
    {graph graph' : TypeGraph}
    (h : graph.Matches graph')
    (name : String) :
    graph.lookup name = none ↔ graph'.lookup name = none :=
  eq_none_iff_of_rel (h.lookup name)

end TypeGraph

/-
  Schemas with the same types in the same order, the same root
  types and the same directives, up to the order of directives
  and of the parts of a type.
-/
structure Schema.Agrees (first second : Schema) : Prop where
  types : List.Forall₂ NamedType.Agrees first.types.types
    second.types.types
  query_eq : first.query = second.query
  mutation_eq : first.mutation = second.mutation
  subscription_eq : first.subscription = second.subscription
  directives : first.directives.Perm second.directives

end GraphQL
