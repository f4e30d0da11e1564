import GraphQL.Proofs.Schema.Implementing
import GraphQL.Proofs.Schema.TextOnly

/-
  The order of subtypes.

  A name is a subtype of another one if a type lists an
  interface, or a union lists an object. Validation makes the
  lists of interfaces transitively closed, so subtypes are
  ordered. Where schema text declares all types, no interface
  lists itself, and so none is behind another one both ways.

  Key definitions include:
    * `TypeGraph.Declares`, `TypeGraph.Lists`

  Main declarations:
    * `TypeGraph.isNameSubtype_iff`
    * `Schema.Built.declares_trans`
    * `Schema.Built.subtypes_ordered`
-/

------------------------------------------------------------
-- Names
------------------------------------------------------------

namespace GraphQL

namespace TypeGraph

/- The type of a name lists an interface of another name. -/
def Declares (graph : TypeGraph) (sub super : String) : Prop :=
  graph.HasInterface super ∧
    ∃ type shape, graph.lookup sub = some type ∧
      type.shape? = some shape ∧ super ∈ shape.interfaces

/- The union of a name lists an object of another name. -/
def Lists (graph : TypeGraph) (union object : String) : Prop :=
  graph.HasObject object ∧
    ∃ type, graph.lookup union = some (.defined (.union type)) ∧
      object ∈ type.members

variable {graph : TypeGraph} {a b c : String}

/- What declares interfaces is no union. -/
theorem Declares.not_lists (h : graph.Declares a b) :
    ¬graph.Lists a c := by
  rintro ⟨-, union, hUnion, -⟩
  rcases h with ⟨-, type, shape, hType, hShape, -⟩
  rw [hUnion] at hType
  cases hType
  cases hShape

/- What is declared is no member of a union. -/
theorem Declares.not_member (h : graph.Declares a b) :
    ¬graph.Lists c b := by
  rintro ⟨⟨object, hObject⟩, -⟩
  rcases h with ⟨⟨interface, hInterface⟩, -⟩
  rw [hObject] at hInterface
  cases hInterface

/- A union is no member of one. -/
theorem Lists.not_member (h : graph.Lists a b) :
    ¬graph.Lists c a := by
  rintro ⟨⟨object, hObject⟩, -⟩
  rcases h with ⟨-, union, hUnion, -⟩
  rw [hObject] at hUnion
  cases hUnion

/- A name is a subtype of itself. -/
theorem isNameSubtype_refl (h : graph.contains a = true) :
    graph.isNameSubtype a a = true := by
  rcases Option.isSome_iff_exists.1 h with ⟨type, hType⟩
  simp [isNameSubtype, hType]

/- The subtypes of a name: itself, and what the lists tell. -/
theorem isNameSubtype_iff :
    graph.isNameSubtype a b = true ↔
      (a = b ∧ graph.contains a = true) ∨
        graph.Declares a b ∨ graph.Lists b a := by
  constructor
  · intro h
    unfold isNameSubtype at h
    split at h
    · next sub super hSub hSuper =>
        have hSubName := name_of_lookup hSub
        have hSuperName := name_of_lookup hSuper
        split at h
        · next hSame =>
            have hNames : sub.name = super.name := by
              simpa using hSame
            refine .inl ⟨?_, by simp [contains, hSub]⟩
            rw [← hSubName, ← hSuperName, hNames]
        · split at h
          · next sub super _ =>
              have hMem : super.name ∈ sub.shape.interfaces := by
                simpa [InterfaceType.implements] using h
              exact .inr (.inl
                ⟨⟨super, hSuper⟩, _, _, hSub, rfl,
                  hSuperName ▸ hMem⟩)
          · next sub super _ =>
              have hMem : super.name ∈ sub.shape.interfaces := by
                simpa [ObjectType.implements] using h
              exact .inr (.inl
                ⟨⟨super, hSuper⟩, _, _, hSub, rfl,
                  hSuperName ▸ hMem⟩)
          · next sub super _ =>
              have hMem : sub.name ∈ super.members := by
                simpa using h
              exact .inr (.inr
                ⟨⟨sub, hSub⟩, super, hSuper, hSubName ▸ hMem⟩)
          · cases h
    · cases h
  · rintro (⟨rfl, hKnown⟩ | h | h)
    · exact isNameSubtype_refl hKnown
    · rcases h with
        ⟨⟨interface, hSuper⟩, type, shape, hSub, hShape, hMem⟩
      have hName : interface.name = b := name_of_lookup hSuper
      cases type with
      | builtin scalar => cases hShape
      | defined type =>
          cases type with
          | object type =>
              cases hShape
              simp [isNameSubtype, hSub, hSuper, hName,
                ObjectType.implements, hMem]
          | interface type =>
              cases hShape
              simp [isNameSubtype, hSub, hSuper, hName,
                InterfaceType.implements, hMem]
          | _ => cases hShape
    · rcases h with ⟨⟨object, hSub⟩, union, hSuper, hMem⟩
      have hName : object.name = a := name_of_lookup hSub
      simp [isNameSubtype, hSub, hSuper, hName, hMem]

------------------------------------------------------------
-- Valid Graphs
------------------------------------------------------------

section

variable (hValid : graph.validate = .ok ())

include hValid

/- A type lists what its interfaces list. -/
theorem full_of_validate
    {type : NamedType}
    {shape : FieldShape}
    (hType : type ∈ graph.types)
    (hShape : type.shape? = some shape) :
    Implementor.Full graph shape.interfaces := by
  have hErrors := (validate_eq_ok_iff.1 hValid).2
  rw [errors, List.flatMap_eq_nil_iff] at hErrors
  rcases implementorErrors_eq_nil_of_shape?
    (hErrors type hType) hShape with ⟨self, rfl, hNone⟩
  rw [implementorErrors, List.append_eq_nil_iff] at hNone
  have hOthers : TypeError.Others (self.interfaceErrors graph) :=
    hNone.1 ▸ TypeError.others_nil
  intro name hName interface hLookup
  rcases Implementor.implements_of_others hOthers hName with
    ⟨found, hFound, hMeets⟩
  rw [hLookup] at hFound
  cases hFound
  exact hMeets.interfaces

/- What is declared behind an interface is declared. -/
theorem declares_trans
    (hFirst : graph.Declares a b)
    (hNext : graph.Declares b c) : graph.Declares a c := by
  rcases hFirst with
    ⟨⟨interface, hInterface⟩, type, shape, hType, hShape, hB⟩
  rcases hNext with ⟨hSuper, found, own, hFound, hOwn, hC⟩
  rw [hInterface] at hFound
  cases hFound
  cases hOwn
  have hFull :=
    full_of_validate hValid (mem_of_lookup hType) hShape
  exact
    ⟨hSuper, type, shape, hType, hShape,
      hFull b hB interface hInterface hC⟩

/- A subtype of a subtype is a subtype. -/
theorem isNameSubtype_trans
    (hFirst : graph.isNameSubtype a b = true)
    (hNext : graph.isNameSubtype b c = true) :
    graph.isNameSubtype a c = true := by
  rcases isNameSubtype_iff.1 hNext with
    ⟨rfl, -⟩ | hNextDeclares | hNextLists
  · exact hFirst
  · rcases isNameSubtype_iff.1 hFirst with
      ⟨rfl, -⟩ | hDeclares | hLists
    · exact hNext
    · have hDirect :=
        declares_trans hValid hDeclares hNextDeclares
      exact isNameSubtype_iff.2 (.inr (.inl hDirect))
    · exact absurd hLists hNextDeclares.not_lists
  · rcases isNameSubtype_iff.1 hFirst with
      ⟨rfl, -⟩ | hDeclares | hLists
    · exact hNext
    · exact absurd hNextLists hDeclares.not_member
    · exact absurd hNextLists hLists.not_member

end

------------------------------------------------------------
-- References
------------------------------------------------------------

/- A reference to a type is a subtype of itself. -/
theorem isSubtype_refl
    {ref : TypeRef}
    (h : graph.contains ref.innermost = true) :
    graph.isSubtype ref ref = true := by
  induction ref with
  | named name nullable location =>
      have hName : graph.isNameSubtype name name = true :=
        isNameSubtype_refl h
      simp [isSubtype, hName]
  | list inner nullable location ih =>
      simp [isSubtype, ih h]

/- Layer by layer, subtypes of subtypes are subtypes. -/
theorem isSubtype_trans
    (hValid : graph.validate = .ok ())
    {first second third : TypeRef}
    (hFirst : graph.isSubtype first second = true)
    (hNext : graph.isSubtype second third = true) :
    graph.isSubtype first third = true := by
  induction first generalizing second third with
  | named name nullable location =>
      cases second <;> cases third <;>
        simp only [isSubtype, Bool.and_eq_true, Bool.or_eq_true,
          Bool.not_eq_true', Bool.false_eq_true] at hFirst hNext ⊢
      refine ⟨?_, isNameSubtype_trans hValid hFirst.2 hNext.2⟩
      rcases hFirst.1 with hNever | hMiddle
      · exact .inl hNever
      · exact .inr (by simpa [hMiddle] using hNext.1)
  | list inner nullable location ih =>
      cases second <;> cases third <;>
        simp only [isSubtype, Bool.and_eq_true, Bool.or_eq_true,
          Bool.not_eq_true', Bool.false_eq_true] at hFirst hNext ⊢
      refine ⟨?_, ih hFirst.2 hNext.2⟩
      rcases hFirst.1 with hNever | hMiddle
      · exact .inl hNever
      · exact .inr (by simpa [hMiddle] using hNext.1)

/- Where names are ordered, references are up to locations. -/
theorem same_of_isSubtype
    (hNames : ∀ a b, graph.isNameSubtype a b = true →
      graph.isNameSubtype b a = true → a = b)
    {first second : TypeRef}
    (h : graph.isSubtype first second = true)
    (hBack : graph.isSubtype second first = true) :
    first.same second = true := by
  have hNullable : ∀ nullable nullable' : Bool,
      (!nullable || nullable') = true →
      (!nullable' || nullable) = true →
      nullable = nullable' := by
    decide
  induction first generalizing second with
  | named name nullable location =>
      cases second <;>
        simp only [isSubtype, Bool.and_eq_true,
          Bool.false_eq_true] at h hBack
      simp [TypeRef.same, hNullable _ _ h.1 hBack.1,
        hNames _ _ h.2 hBack.2]
  | list inner nullable location ih =>
      cases second <;>
        simp only [isSubtype, Bool.and_eq_true,
          Bool.false_eq_true] at h hBack
      simp [TypeRef.same, hNullable _ _ h.1 hBack.1,
        ih h.2 hBack.2]

end TypeGraph

------------------------------------------------------------
-- Schemas
------------------------------------------------------------

namespace Schema

variable {schema : Schema}

/- The types of a schema that is built are valid. -/
theorem Built.validate_eq_ok (h : schema.Built) :
    schema.types.validate = .ok () := by
  rcases h.exists_build with ⟨pass, decorator?, hBuild⟩
  rcases Pass.exists_assemble_of_build hBuild with
    ⟨graph, hAssemble⟩
  rcases Pass.assemble_eq_ok_iff.1 hAssemble with
    ⟨rfl, -, hValid, -⟩
  exact hValid

namespace FromText

variable {a b : String}

/- No interface that text declares lists itself. -/
theorem not_declares_self (h : schema.FromText) :
    ¬schema.types.Declares a a := by
  rintro ⟨⟨interface, hInterface⟩, type, shape, hType, hShape,
    hMem⟩
  rw [hInterface] at hType
  cases hType
  cases hShape
  have hName : interface.name = a :=
    TypeGraph.name_of_lookup hInterface
  have hListed :=
    h.listsOnce _ (TypeGraph.mem_of_lookup hInterface)
  exact hListed.not_self interface rfl (hName ▸ hMem)

/- Nor is an interface behind itself, however far. -/
theorem not_transGen_declares_self (h : schema.FromText) :
    ¬Relation.TransGen schema.types.Declares a a := by
  have hTrans : IsTrans String schema.types.Declares :=
    ⟨fun _ _ _ =>
      TypeGraph.declares_trans h.built.validate_eq_ok⟩
  rw [Relation.transGen_eq_self]
  exact h.not_declares_self

/- Names that are subtypes both ways are the same. -/
theorem eq_of_isNameSubtype
    (h : schema.FromText)
    (hSub : schema.types.isNameSubtype a b = true)
    (hBack : schema.types.isNameSubtype b a = true) :
    a = b := by
  rcases TypeGraph.isNameSubtype_iff.1 hSub with
    ⟨hSame, -⟩ | hDeclares | hLists
  · exact hSame
  · rcases TypeGraph.isNameSubtype_iff.1 hBack with
      ⟨hSame, -⟩ | hBackDeclares | hBackLists
    · exact hSame.symm
    · exact absurd
        (TypeGraph.declares_trans h.built.validate_eq_ok
          hDeclares hBackDeclares)
        h.not_declares_self
    · exact absurd hBackLists hDeclares.not_lists
  · rcases TypeGraph.isNameSubtype_iff.1 hBack with
      ⟨hSame, -⟩ | hBackDeclares | hBackLists
    · exact hSame.symm
    · exact absurd hLists hBackDeclares.not_lists
    · exact absurd hBackLists hLists.not_member

end FromText

/-
  Subtypes of a schema are ordered: every reference to a type
  is a subtype of itself, and subtypes of subtypes are subtypes.
  If schema text declares all types, references that are
  subtypes both ways are the same, and no chain of declared
  interfaces leads back to where it starts.

  The transitivity of names is that of the interface lists,
  which validation has closed.
-/
theorem Built.subtypes_ordered (h : schema.Built) :
    (∀ ref, schema.types.contains ref.innermost = true →
      schema.types.isSubtype ref ref = true) ∧
    (∀ first second third,
      schema.types.isSubtype first second = true →
      schema.types.isSubtype second third = true →
      schema.types.isSubtype first third = true) ∧
    (schema.FromText →
      (∀ first second,
        schema.types.isSubtype first second = true →
        schema.types.isSubtype second first = true →
        first.same second = true) ∧
      ∀ name,
        ¬Relation.TransGen schema.types.Declares name name) := by
  refine ⟨?_, ?_, ?_⟩
  · intro ref hRef
    exact TypeGraph.isSubtype_refl hRef
  · intro first second third hFirst hNext
    exact TypeGraph.isSubtype_trans h.validate_eq_ok hFirst hNext
  · intro hText
    refine ⟨?_, fun name => hText.not_transGen_declares_self⟩
    intro first second hSub hBack
    refine TypeGraph.same_of_isSubtype ?_ hSub hBack
    intro a b
    exact hText.eq_of_isNameSubtype

end Schema

------------------------------------------------------------
-- A Catalogue
------------------------------------------------------------

namespace Catalogue

/- Later declarations: items are entries, and so are books. -/
def layers : TypeSystemDocument :=
  [ .type
      ⟨position, none, "Entry", [],
        .interface []
          [declared "title" (.nonNull (.named "String"))]⟩,
    .extension
      ⟨position, "Item", [], .interface ["Entry"] []⟩,
    .extension
      ⟨position, "Book", [], .object ["Entry"] []⟩]

def entry : InterfaceType :=
  ⟨header "Entry", ⟨[title], [], none⟩, none⟩

def layeredItem : InterfaceType :=
  { item with
    header := { item.header with extensions := [place] }
    shape := { item.shape with interfaces := ["Entry"] } }

def layeredBook : ObjectType :=
  { book with
    header := { book.header with extensions := [place] }
    shape :=
      { book.shape with interfaces := ["Item", "Entry"] } }

/- The catalogue with these declarations. -/
def layered : Schema :=
  { schema with
    types :=
      { types := TypeGraph.builtin.types ++
          [ .defined (.interface layeredItem),
            .defined (.object layeredBook),
            .defined (.object query),
            .defined (.interface entry)]
        nodup_names := by decide } }

/- The pass that takes them. -/
def layeredPass : Pass :=
  { Pass.ofSchema schema with
    draft :=
      [ ⟨.interface layeredItem, true⟩,
        ⟨.object layeredBook, true⟩, ⟨.object query, false⟩,
        ⟨.interface entry, true⟩] }

/- Books have all that items and entries have. -/
theorem typeErrors_layeredBook :
    layered.types.typeErrors (.defined (.object layeredBook)) =
      [] := by
  have hSorted :
      Implementor.sorted layeredBook.shape.interfaces =
        ["Entry", "Item"] := by
    simp [Implementor.sorted, layeredBook, List.eraseDups_cons,
      List.mergeSort, List.MergeSort.Internal.splitInTwo_fst]
  have hInterfaces : Implementor.interfaceErrors layered.types
      ⟨layeredBook.name, layeredBook.header.location,
        layeredBook.shape⟩ = [] := by
    unfold Implementor.interfaceErrors Implementor.checkDeclared
    rw [hSorted]
    with_unfolding_all rfl
  refine List.append_eq_nil_iff.2 ⟨hInterfaces, ?_⟩
  with_unfolding_all rfl

theorem validate_layered : layered.types.validate = .ok () := by
  refine TypeGraph.validate_eq_ok_iff.2
    ⟨by with_unfolding_all rfl, ?_⟩
  rw [TypeGraph.errors, List.flatMap_eq_nil_iff]
  intro type hType
  rcases List.mem_append.1 hType with hBuiltin | hDefined
  · rcases List.mem_map.1 hBuiltin with ⟨scalar, -, rfl⟩
    rfl
  · simp only [List.mem_cons, List.not_mem_nil, or_false]
      at hDefined
    rcases hDefined with rfl | rfl | rfl | rfl
    · with_unfolding_all rfl
    · exact typeErrors_layeredBook
    · with_unfolding_all rfl
    · with_unfolding_all rfl

theorem build_layeredPass :
    layeredPass.build none = .ok layered := by
  refine Pass.build_eq_ok_iff.2
    ⟨layeredPass.draft, layered.types, rfl, ?_, ?_⟩
  · with_unfolding_all rfl
  · refine Pass.assemble_eq_ok_iff.2
      ⟨rfl, rfl, validate_layered, ?_⟩
    intro operation
    cases operation <;> rfl

/- Schema text declares all of it. -/
theorem layered_fromText : layered.FromText := by
  have hBase : schema.FromText :=
    .build (.load .start load_document) build_pass
  have hExtend : schema.extend [layers] none = .ok layered :=
    Results.bind_eq_ok_iff.2
      ⟨layeredPass, rfl, build_layeredPass⟩
  exact hBase.of_extend hExtend

/- A list of a type, with or without null as a member. -/
def listOf (name : String) (nullable : Bool) : TypeRef :=
  .ofList (.ofName name nullable) true

/- Books are items and items are entries, so books are. -/
theorem layered_subtypes :
    layered.Built ∧ layered.FromText ∧
      layered.types.isSubtype (listOf "Book" false)
        (listOf "Item" true) = true ∧
      layered.types.isSubtype (listOf "Item" true)
        (listOf "Entry" true) = true ∧
      layered.types.isSubtype (listOf "Book" false)
        (listOf "Entry" true) = true ∧
      layered.types.isSubtype (listOf "Entry" true)
        (listOf "Book" false) = false ∧
      layered.types.isSubtype (listOf "Entry" true)
        (listOf "Entry" true) = true ∧
      ∀ name,
        ¬Relation.TransGen layered.types.Declares name name := by
  have hBooks : layered.types.isSubtype (listOf "Book" false)
      (listOf "Item" true) = true := by
    with_unfolding_all rfl
  have hItems : layered.types.isSubtype (listOf "Item" true)
      (listOf "Entry" true) = true := by
    with_unfolding_all rfl
  have hKnown : layered.types.contains
      (listOf "Entry" true).innermost = true := by
    with_unfolding_all rfl
  rcases Schema.Built.subtypes_ordered layered_fromText.built
    with ⟨hRefl, hTrans, hText⟩
  rcases hText layered_fromText with ⟨hAntisymm, hChains⟩
  have hEntries := hTrans _ _ _ hBooks hItems
  have hOneWay : layered.types.isSubtype (listOf "Entry" true)
      (listOf "Book" false) = false := by
    rw [Bool.eq_false_iff]
    intro hBack
    have hSame := hAntisymm _ _ hEntries hBack
    revert hSame
    decide
  exact
    ⟨layered_fromText.built, layered_fromText, hBooks, hItems,
      hEntries, hOneWay, hRefl _ hKnown, hChains⟩

end Catalogue

end GraphQL
