import GraphQL.Proofs.Execution.Settling
import GraphQL.Proofs.Schema.Growth

/-
  Execution on a schema that has grown.

  What a name of the former schema stands for has grown with
  it, and so have the possible types of an abstract type: they
  are the same objects in the same order. Inputs are coerced as
  before.

  Key definitions include:
    * `Schema.NewType`, `Schema.NewField`
    * `Schema.Grown`: an object before and after
    * `Schema.addsField`: new fields, computed

  Main declarations:
    * `Schema.Grows.rel_lookup`, `Schema.Grows.newField_iff`
    * `Schema.Grows.forall₂_possibleTypes`
    * `Schema.Grows.literal_eq`, `Schema.Grows.value_eq`
    * `Schema.Grows.arguments_eq`, `Schema.Grows.bindings_eq`
-/

------------------------------------------------------------
-- Names
------------------------------------------------------------

namespace GraphQL

namespace Schema

/- A name that only the extended schema has a type for. -/
def NewType (base extended : Schema) (name : String) : Prop :=
  base.lookup name = none ∧ extended.lookup name ≠ none

/- An object before and after it has grown. -/
structure Grown
    (base extended : Schema)
    (type next : ObjectType) : Prop where
  before : base.lookup type.name = some (.defined (.object type))
  after : extended.lookup type.name =
    some (.defined (.object next))
  grows : type.Grows next

/- The name of a field that some object did not have. -/
def NewField (base extended : Schema) (name : String) : Prop :=
  ∃ type next, base.Grown extended type next ∧
    type.field? name = none ∧ next.field? name ≠ none

/- The object of a name is looked up. -/
theorem object?_of_lookup
    {schema : Schema}
    {name : String}
    {type : ObjectType}
    (h : schema.lookup name = some (.defined (.object type))) :
    schema.object? name = some type := by
  unfold object?
  rw [h]
  rfl

/- Whether some object gets a field of a name. -/
def addsField
    (base extended : Schema)
    (name : String) : Bool :=
  base.types.objects.any fun type =>
    let next? := (extended.object? type.name).bind fun next =>
      next.field? name
    (type.field? name).isNone && next?.isSome

theorem Grown.name_eq
    {base extended : Schema}
    {type next : ObjectType}
    (h : base.Grown extended type next) :
    next.name = type.name :=
  h.grows.header.name

/- A field is the same one before and after. -/
theorem Grown.field?_eq
    {base extended : Schema}
    {type next : ObjectType}
    (h : base.Grown extended type next)
    {name : String}
    (hName : ¬base.NewField extended name) :
    next.field? name = type.field? name := by
  rcases h.grows.shape.fields with ⟨added, hFields⟩
  have hGet : next.field? name =
      (type.field? name).or (Entries.get? added name) := by
    unfold ObjectType.field?
    rw [← hFields, Entries.get?_append]
  cases hField : type.field? name with
  | some field => rw [hGet, hField, Option.some_or]
  | none =>
      by_contra hNew
      exact hName ⟨type, next, h, hField, hNew⟩

------------------------------------------------------------
-- Types
------------------------------------------------------------

namespace Grows

variable {base extended : Schema}
variable (hGrows : base.Grows extended)

include hGrows

/- A type is found under its name after it has grown. -/
theorem exists_of_lookup
    {name : String}
    {type : NamedType}
    (h : base.lookup name = some type) :
    ∃ next, extended.lookup name = some next ∧
      type.Grows next := by
  rcases hGrows.types with ⟨old, new, hTypes, hOld, -⟩
  have hFound := rel_find?_of_forall₂
    (fun _ _ hType => hType.name_eq.symm) hOld name
  have hBase : base.types.types.find?
      (fun type => type.name == name) = some type := h
  rw [hBase] at hFound
  cases hNext : old.find? fun type => type.name == name with
  | none =>
      rw [hNext] at hFound
      cases hFound
  | some next =>
      rw [hNext] at hFound
      cases hFound with
      | some hType =>
          refine ⟨next, ?_, hType⟩
          unfold lookup TypeGraph.lookup
          rw [hTypes, List.find?_append, hNext, Option.some_or]

/- A name that is not new stands for what has grown. -/
theorem rel_lookup
    {name : String}
    (hName : ¬base.NewType extended name) :
    Option.Rel NamedType.Grows (base.lookup name)
      (extended.lookup name) := by
  cases hBase : base.lookup name with
  | some type =>
      rcases hGrows.exists_of_lookup hBase with
        ⟨next, hNext, hType⟩
      rw [hNext]
      exact .some hType
  | none =>
      have hNone : extended.lookup name = none := by
        by_contra hSome
        exact hName ⟨hBase, hSome⟩
      rw [hNone]
      exact .none

omit hGrows in
/- A name of the former schema is not new. -/
theorem not_newType
    {name : String}
    {type : NamedType}
    (h : base.lookup name = some type) :
    ¬base.NewType extended name := by
  intro hNew
  rw [hNew.1] at h
  cases h

omit hGrows in
/- What two schemas have under the name of an object. -/
theorem grown_of_lookup
    {name : String}
    {type next : ObjectType}
    (hBefore : base.lookup name = some (.defined (.object type)))
    (hAfter : extended.lookup name =
      some (.defined (.object next)))
    (hType : type.Grows next) :
    base.Grown extended type next := by
  have hName : type.name = name :=
    TypeGraph.name_of_lookup hBefore
  subst hName
  exact ⟨hBefore, hAfter, hType⟩

/- An object of the former schema has grown. -/
theorem exists_grown
    {name : String}
    {type : ObjectType}
    (h : base.lookup name = some (.defined (.object type))) :
    ∃ next, extended.lookup name =
        some (.defined (.object next)) ∧
      base.Grown extended type next := by
  rcases hGrows.exists_of_lookup h with ⟨_, hNext, hType⟩
  cases hType with
  | defined hType =>
      cases hType with
      | object hType =>
          exact ⟨_, hNext, grown_of_lookup h hNext hType⟩

/- The names of new fields can be computed. -/
theorem newField_iff {name : String} :
    base.NewField extended name ↔
      base.addsField extended name = true := by
  simp only [addsField, TypeGraph.objects, List.any_eq_true,
    List.mem_filterMap, Bool.and_eq_true,
    Option.isNone_iff_eq_none, Option.isSome_iff_exists,
    Option.bind_eq_some_iff]
  constructor
  · rintro ⟨type, next, hGrown, hBefore, hAfter⟩
    have hMem := TypeGraph.mem_of_lookup hGrown.before
    refine ⟨type, ⟨_, hMem, rfl⟩, hBefore, ?_⟩
    rcases Option.ne_none_iff_exists'.1 hAfter with
      ⟨field, hField⟩
    exact ⟨field, next, object?_of_lookup hGrown.after, hField⟩
  · rintro ⟨type, ⟨found, hMem, hType⟩, hBefore, field, next,
      hNext, hField⟩
    cases NamedType.eq_of_object?_eq_some hType
    rcases hGrows.exists_grown (TypeGraph.lookup_of_mem hMem)
      with ⟨_, -, hGrown⟩
    cases (object?_of_lookup hGrown.after).symm.trans hNext
    exact ⟨type, _, hGrown, hBefore, by simp [hField]⟩

omit hGrows in
/- The objects that have grown, in their order. -/
theorem forall₂_objects
    {old new : List NamedType}
    (hTypes : extended.types.types = old ++ new)
    (hOld : List.Forall₂ NamedType.Grows base.types.types old) :
    List.Forall₂ (base.Grown extended)
      (base.types.types.filterMap NamedType.object?)
      (old.filterMap NamedType.object?) := by
  have hPairs : List.Forall₂
      (fun type next => base.lookup type.name = some type ∧
        extended.lookup type.name = some next ∧ type.Grows next)
      base.types.types old := by
    rw [List.forall₂_iff_get] at hOld ⊢
    refine ⟨hOld.1, fun place hPlace hPlace' => ?_⟩
    have hType := hOld.2 place hPlace hPlace'
    refine
      ⟨TypeGraph.lookup_of_mem (List.get_mem _ _), ?_, hType⟩
    rw [← hType.name_eq]
    apply TypeGraph.lookup_of_mem
    rw [hTypes]
    exact List.mem_append_left _ (List.get_mem _ _)
  refine List.rel_filterMap ?_ hPairs
  rintro type next ⟨hBefore, hAfter, hType⟩
  cases hType with
  | builtin _ => exact .none
  | defined hType =>
      cases hType with
      | object hType => exact .some ⟨hBefore, hAfter, hType⟩
      | _ => exact .none

/- The objects that declare an interface have grown. -/
theorem forall₂_implementors
    {name : String}
    (hName : base.types.HasInterface name) :
    List.Forall₂ (base.Grown extended) (base.implementors name)
      (extended.implementors name) := by
  rcases hGrows.types with ⟨old, new, hTypes, hOld, hForeign⟩
  have hObjects := forall₂_objects hTypes hOld
  unfold implementors TypeGraph.objects
  rw [hTypes, List.filterMap_append, List.flatMap_append]
  have hNew : ((new.map NamedType.defined).filterMap
      NamedType.object?).flatMap (fun object =>
        List.replicate (object.shape.interfaces.count name)
          object) = [] := by
    rw [List.flatMap_eq_nil_iff]
    intro object hObject
    rcases List.mem_filterMap.1 hObject with
      ⟨_, hDefined, hObject⟩
    rcases List.mem_map.1 hDefined with ⟨type, hType, rfl⟩
    cases NamedType.eq_of_object?_eq_some hObject
    have hNone : name ∉ object.shape.interfaces := fun hMem =>
      hForeign _ hType object.shape rfl name hMem hName
    rw [List.count_eq_zero_of_not_mem hNone]
    rfl
  rw [hNew, List.append_nil]
  refine List.rel_flatMap hObjects ?_
  intro type next hType
  simp only [hType.grows.shape.interfaces]
  induction type.shape.interfaces.count name with
  | zero => exact .nil
  | succ n ih => exact .cons hType ih

/- The possible types of an abstract type have grown. -/
theorem forall₂_possibleTypes
    (hClosed : base.types.Closed)
    {type next : NamedType}
    (hLookup : base.lookup type.name = some type)
    (hType : type.Grows next) :
    List.Forall₂ (base.Grown extended) (base.possibleTypes type)
      (extended.possibleTypes next) := by
  have hMem := TypeGraph.mem_of_lookup hLookup
  cases hType with
  | builtin _ => exact .nil
  | defined hType =>
      cases hType with
      | @interface type next hType =>
          have hName : next.name = type.name := hType.header.name
          simp only [possibleTypes, hName]
          exact hGrows.forall₂_implementors ⟨type, hLookup⟩
      | union type =>
          have hMembers : List.Forall₂
              (fun name name' =>
                name = name' ∧ base.types.HasObject name)
              type.members type.members :=
            List.forall₂_same.2 fun name hName =>
              ⟨rfl, hClosed.members type hMem name hName⟩
          refine List.rel_filterMap ?_ hMembers
          rintro name _ ⟨rfl, object, hObject⟩
          rcases hGrows.exists_grown hObject with
            ⟨next, hNext, hGrown⟩
          rw [object?_of_lookup hObject, object?_of_lookup hNext]
          exact .some hGrown
      | _ => exact .nil

/- The same objects are possible. -/
theorem isPossible_eq
    {type next : NamedType}
    (hLookup : base.lookup type.name = some type)
    (hType : type.Grows next)
    {object object' : ObjectType}
    (hObject : object'.name = object.name) :
    extended.isPossible object' next =
      base.isPossible object type := by
  cases hType with
  | builtin _ => rfl
  | defined hType =>
      cases hType with
      | @interface type next hType =>
          have hName : next.name = type.name := hType.header.name
          have hNames : (extended.implementors type.name).map
                ObjectType.name =
              (base.implementors type.name).map
                ObjectType.name := by
            have hSame :=
              hGrows.forall₂_implementors ⟨type, hLookup⟩
            rw [← List.forall₂_eq_eq_eq,
              List.forall₂_map_left_iff,
              List.forall₂_map_right_iff]
            exact hSame.flip.imp fun _ _ h => h.name_eq
          have hAny : ∀ objects : List ObjectType,
              (objects.any fun candidate =>
                candidate.name == object.name) =
                (objects.map ObjectType.name).any
                  (· == object.name) := by
            intro objects
            rw [List.any_map]
            rfl
          simp only [isPossible, hName, hObject, hAny]
          rw [hNames]
      | union type => simp only [isPossible, hObject]
      | _ => rfl

end Grows

end Schema

------------------------------------------------------------
-- Leaves
------------------------------------------------------------

namespace NamedType.Grows

variable {type next : NamedType}

theorem kind_eq (h : type.Grows next) :
    next.kind = type.kind := by
  cases h with
  | builtin _ => rfl
  | defined h => cases h <;> rfl

theorem isInput_eq (h : type.Grows next) :
    next.isInput = type.isInput := by
  cases h with
  | builtin _ => rfl
  | defined h => cases h <;> rfl

theorem notLeaf_eq (h : type.Grows next) :
    next.notLeaf = type.notLeaf := by
  simp only [notLeaf, h.kind_eq, h.name_eq]

/- Leaves are written as before. -/
theorem serialize_eq (h : type.Grows next) (value : Json) :
    next.serialize value = type.serialize value := by
  have hNotLeaf := h.notLeaf_eq
  cases h with
  | builtin _ => rfl
  | defined h =>
      cases h with
      | scalar h => simp only [serialize, h.serialize]
      | object _ => exact hNotLeaf
      | interface _ => exact hNotLeaf
      | _ => rfl

/- Leaves are read as before. -/
theorem parseValue_eq (h : type.Grows next) (value : Json) :
    next.parseValue value = type.parseValue value := by
  have hNotLeaf := h.notLeaf_eq
  cases h with
  | builtin _ => rfl
  | defined h =>
      cases h with
      | scalar h => simp only [parseValue, h.parseValue]
      | object _ => exact hNotLeaf
      | interface _ => exact hNotLeaf
      | _ => rfl

theorem parseLiteral_eq
    (h : type.Grows next)
    (literal : Literal)
    (bindings : Entries Json) :
    next.parseLiteral literal bindings =
      type.parseLiteral literal bindings := by
  have hNotLeaf := h.notLeaf_eq
  cases h with
  | builtin _ => rfl
  | defined h =>
      cases h with
      | scalar h => simp only [parseLiteral, h.parseLiteral]
      | object _ => exact hNotLeaf
      | interface _ => exact hNotLeaf
      | _ => rfl

end NamedType.Grows

------------------------------------------------------------
-- Coercion
------------------------------------------------------------

namespace Coercion

variable {α β : Type}

/- Nothing follows what is refused. -/
theorem throw_bind
    {ε : Type}
    (cause : ε)
    (next : α → Coercion ε β) :
    (throw cause : Coercion ε α) >>= next = throw cause :=
  rfl

/- Members that give the same give the same together. -/
theorem mapM_congr
    {m : Type → Type}
    [Monad m]
    [LawfulMonad m]
    {f g : α → m β}
    {members : List α}
    (h : ∀ a ∈ members, f a = g a) :
    members.mapM f = members.mapM g := by
  induction members with
  | nil => rfl
  | cons a rest ih =>
      rw [List.mapM_cons, List.mapM_cons, h a List.mem_cons_self,
        ih fun b hb => h b (List.mem_cons_of_mem a hb)]

theorem provided_congr
    {type : InputObjectType}
    {coerce coerce' : TypeRef → α → Coercion InputError Json}
    (h : ∀ entry ∈ type.fields, coerce entry.2.type =
      coerce' entry.2.type)
    (entries : Entries α) :
    provided coerce type entries =
      provided coerce' type entries := by
  apply mapM_congr
  intro entry _
  unfold inputField
  cases hField : type.fields.get? entry.1 with
  | none => rfl
  | some field =>
      have hMem := Entries.mem_of_get? hField
      simp only [pure_bind, h _ hMem]

theorem completeObject_congr
    {type : InputObjectType}
    {fallback fallback' :
      TypeRef → Literal → Coercion InputError Json}
    (h : ∀ entry ∈ type.fields, fallback entry.2.type =
      fallback' entry.2.type)
    (values : Entries Json) :
    completeObject fallback type values =
      completeObject fallback' type values := by
  unfold completeObject
  rw [mapM_congr]
  intro entry hEntry
  simp only [completeField, h entry hEntry]

end Coercion

namespace Schema.Grows

variable {base extended : Schema}
variable (hGrows : base.Grows extended)
variable (hClosed : base.types.Closed)

include hGrows hClosed

omit hGrows in
/- The fields of an input object have types of the schema. -/
theorem not_newType_of_field
    {name : String}
    {type : InputObjectType}
    (hType : base.lookup name =
      some (.defined (.inputObject type)))
    {entry : String × InputValue}
    (hEntry : entry ∈ type.fields) :
    ¬base.NewType extended entry.2.type.innermost := by
  rcases hClosed.inputFields type
      (TypeGraph.mem_of_lookup hType) entry hEntry with
    ⟨found, hFound, -⟩
  exact not_newType hFound

omit hClosed in
/-
  A name is refused before and after, or is that of an input
  object, which stays the same, or of a leaf type.
-/
theorem inputType_cases
    {name : String}
    (hName : ¬base.NewType extended name) :
    (∃ cause, Coercion.inputType base name = throw cause ∧
      Coercion.inputType extended name = throw cause) ∨
    (∃ type,
      base.lookup name = some (.defined (.inputObject type)) ∧
      extended.lookup name =
        some (.defined (.inputObject type))) ∨
    ∃ type next, type.isLeaf = true ∧
      base.lookup name = some type ∧
      extended.lookup name = some next ∧
      type.Grows next ∧ next.isLeaf = true := by
  have hFound := hGrows.rel_lookup hName
  unfold Coercion.inputType
  cases hBefore : base.lookup name with
  | none =>
      rw [(eq_none_iff_of_rel hFound).1 hBefore]
      exact .inl ⟨_, rfl, rfl⟩
  | some type =>
      rw [hBefore] at hFound
      cases hAfter : extended.lookup name with
      | none =>
          rw [hAfter] at hFound
          cases hFound
      | some next =>
          rw [hAfter] at hFound
          cases hFound with
          | some hType =>
              cases hType with
              | builtin scalar =>
                  exact .inr (.inr
                    ⟨_, _, rfl, rfl, rfl, .builtin scalar, rfl⟩)
              | defined hType =>
                  cases hType with
                  | object _ => exact .inl ⟨_, rfl, rfl⟩
                  | interface _ => exact .inl ⟨_, rfl, rfl⟩
                  | union _ => exact .inl ⟨_, rfl, rfl⟩
                  | scalar hType =>
                      exact .inr (.inr
                        ⟨_, _, rfl, rfl, rfl,
                          .defined (.scalar hType), rfl⟩)
                  | enum type =>
                      exact .inr (.inr
                        ⟨_, _, rfl, rfl, rfl,
                          .defined (.enum type), rfl⟩)
                  | inputObject type =>
                      exact .inr (.inl ⟨type, rfl, rfl⟩)

/- Literals are coerced as before. -/
theorem literal_eq
    (bindings : Entries Json)
    (fuel : Nat)
    {ref : TypeRef}
    (hRef : ¬base.NewType extended ref.innermost) :
    Coercion.literal extended bindings fuel ref =
      Coercion.literal base bindings fuel ref := by
  induction fuel generalizing ref with
  | zero => rfl
  | succ fuel ih =>
      funext input
      cases ref with
      | list inner nullable location =>
          have hInner : Coercion.literal extended bindings fuel
              inner = Coercion.literal base bindings fuel inner :=
            ih hRef
          cases input <;> simp only [Coercion.literal, hInner]
      | named name nullable location =>
          change ¬base.NewType extended name at hRef
          rcases hGrows.inputType_cases hRef with
            ⟨cause, hBefore, hAfter⟩ |
              ⟨type, hBefore, hAfter⟩ |
              ⟨type, next, hLeaf, hBefore, hAfter, hType⟩
          · cases input with
            | «variable» var => simp only [Coercion.literal]
            | null => simp only [Coercion.literal]
            | _ =>
                simp only [Coercion.literal, hBefore, hAfter,
                  Coercion.throw_bind]
          · have hFields : ∀ entry ∈ type.fields,
                Coercion.literal extended bindings fuel
                    entry.2.type =
                  Coercion.literal base bindings fuel
                    entry.2.type :=
              fun _ hEntry =>
                ih (not_newType_of_field hClosed hBefore hEntry)
            cases input with
            | object entries =>
                rw [Coercion.literal_object hBefore,
                  Coercion.literal_object hAfter,
                  Coercion.provided_congr hFields]
                congr 1
                funext values
                exact Coercion.completeObject_congr hFields values
            | _ =>
                simp only [Coercion.literal, pure_bind,
                  Coercion.inputType_of_lookup hBefore,
                  Coercion.inputType_of_lookup hAfter]
          · cases input with
            | «variable» var => simp only [Coercion.literal]
            | null => simp only [Coercion.literal]
            | _ =>
                rw [Coercion.literal_leaf hBefore hLeaf nullable
                    location fuel bindings rfl (by simp),
                  Coercion.literal_leaf hAfter hType.2 nullable
                    location fuel bindings rfl (by simp),
                  hType.1.parseLiteral_eq]

/- Values are coerced as before. -/
theorem value_eq
    (fuel : Nat)
    {ref : TypeRef}
    (hRef : ¬base.NewType extended ref.innermost) :
    Coercion.value extended fuel ref =
      Coercion.value base fuel ref := by
  induction fuel generalizing ref with
  | zero => rfl
  | succ fuel ih =>
      funext input
      cases ref with
      | list inner nullable location =>
          have hInner : Coercion.value extended fuel inner =
              Coercion.value base fuel inner :=
            ih hRef
          cases input <;> simp only [Coercion.value, hInner]
      | named name nullable location =>
          change ¬base.NewType extended name at hRef
          rcases hGrows.inputType_cases hRef with
            ⟨cause, hBefore, hAfter⟩ |
              ⟨type, hBefore, hAfter⟩ |
              ⟨type, next, hLeaf, hBefore, hAfter, hType⟩
          · cases input with
            | null => simp only [Coercion.value]
            | _ =>
                simp only [Coercion.value, hBefore, hAfter,
                  Coercion.throw_bind]
          · have hOld : ∀ entry ∈ type.fields,
                ¬base.NewType extended
                  entry.2.type.innermost :=
              fun _ hEntry =>
                not_newType_of_field hClosed hBefore hEntry
            cases input with
            | object entries =>
                rw [Coercion.value_object hBefore,
                  Coercion.value_object hAfter,
                  Coercion.provided_congr fun entry hEntry =>
                    ih (hOld entry hEntry)]
                congr 1
                funext values
                refine Coercion.completeObject_congr ?_ values
                intro entry hEntry
                exact hGrows.literal_eq hClosed [] fuel
                  (hOld entry hEntry)
            | _ =>
                simp only [Coercion.value, pure_bind,
                  Coercion.inputType_of_lookup hBefore,
                  Coercion.inputType_of_lookup hAfter]
          · cases input with
            | null => simp only [Coercion.value]
            | _ =>
                rw [Coercion.value_leaf hBefore hLeaf nullable
                    location fuel rfl,
                  Coercion.value_leaf hAfter hType.2 nullable
                    location fuel rfl,
                  hType.1.parseValue_eq]

/- The arguments of a field are coerced as before. -/
theorem arguments_eq
    (bindings : Entries Json)
    (fuel : Nat)
    {field : OutputField}
    (hField : ∀ entry ∈ field.arguments,
      base.types.HasInput entry.2.type.innermost)
    (given : Entries Literal) :
    Coercion.arguments extended bindings fuel field given =
      Coercion.arguments base bindings fuel field given := by
  unfold Coercion.arguments
  rw [Coercion.mapM_congr]
  intro entry hEntry
  rcases hField entry hEntry with ⟨type, hType, -⟩
  have hLiteral := hGrows.literal_eq hClosed bindings fuel
    (not_newType hType)
  simp only [Coercion.argument, Coercion.absentArgument, hLiteral]

/- The variables of an operation are coerced as before. -/
theorem bindings_eq
    (fuel : Nat)
    (inputs : Entries Json)
    {definitions : List VariableDefinition}
    (hNames : ∀ definition ∈ definitions,
      ¬base.NewType extended
        (Coercion.variableType definition).innermost) :
    Coercion.bindings extended fuel inputs definitions =
      Coercion.bindings base fuel inputs definitions := by
  have hVariable : ∀ definition ∈ definitions,
      Coercion.requestVariable extended fuel inputs definition =
        Coercion.requestVariable base fuel inputs definition := by
    intro definition hDefinition
    have hName := hNames definition hDefinition
    have hLiteral := hGrows.literal_eq hClosed [] fuel hName
    have hValue := hGrows.value_eq hClosed fuel hName
    have hFound := hGrows.rel_lookup hName
    simp only [Coercion.requestVariable, hLiteral, hValue]
    generalize base.lookup _ = before at hFound ⊢
    generalize extended.lookup _ = after at hFound ⊢
    cases hFound with
    | none => rfl
    | some hType => simp only [hType.isInput_eq]
  unfold Coercion.bindings
  rw [Coercion.mapM_congr]
  intro definition hDefinition
  rw [hVariable definition hDefinition]

end Schema.Grows

end GraphQL
