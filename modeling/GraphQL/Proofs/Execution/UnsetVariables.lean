import GraphQL.Proofs.Execution.FittingInputs
import GraphQL.Proofs.Execution.MoreFuel
import GraphQL.Proofs.Execution.NullVariables

/-
  Variables without a value, and what they are in a literal.

  An argument that is given by a variable without a value is
  not given. An entry of an object that is given by one is null
  all the same: the default of its field is not taken, and where
  the field must not be null, the literal is refused.

  Key definitions include:
    * `Coercion.Coerces`: coerced with some amount of fuel
    * `Coercion.Context`: a literal with a hole
    * `Coercion.Context.Fits`: what a hole in it is coerced to

  Main declarations:
    * `Coercion.Context.Fits.literal_congr`
    * `Coercion.unset_entry_is_null`
-/

------------------------------------------------------------
-- Fuel
------------------------------------------------------------

namespace GraphQL

namespace Coercion

variable {schema : Schema}
variable {bindings : Entries Json}
variable {fuel more : Nat}
variable {ref : TypeRef}
variable {input : Literal}
variable {result : Json}

/- What is coerced is coerced alike with more fuel. -/
theorem literal_of_le
    (hFuel : fuel ≤ more)
    (h : (literal schema bindings fuel ref input).run =
      some (.ok result)) :
    (literal schema bindings more ref input).run =
      some (.ok result) :=
  literal_lasts hFuel ref input _ h

/- With enough fuel, a literal is coerced to a value. -/
def Coerces
    (schema : Schema)
    (bindings : Entries Json)
    (ref : TypeRef)
    (input : Literal)
    (result : Json) : Prop :=
  ∃ fuel, (literal schema bindings fuel ref input).run =
    some (.ok result)

------------------------------------------------------------
-- Contexts
------------------------------------------------------------

/- A literal with a hole in its lists and objects. -/
inductive Context where
  | here
  | item
      (before after : List Literal)
      (inner : Context)
  | entry
      (before : Entries Literal)
      (key : String)
      (after : Entries Literal)
      (inner : Context)

/- The literal with another one in its hole. -/
def Context.fill : Context → Literal → Literal
| here, hole => hole
| item before after inner, hole =>
    .list (before ++ inner.fill hole :: after)
| entry before key after inner, hole =>
    .object (before ++ (key, inner.fill hole) :: after)

/-
  Coerced to a type, the literal has an object coerced to
  another type in its hole. An object is the only item of a
  list that is expected for it.
-/
inductive Context.Fits (schema : Schema) (hole : TypeRef) :
    TypeRef → Context → Prop where
  | here : Fits schema hole hole .here
  | item
      {inner : TypeRef}
      {nullable : Bool}
      {location : SourceLocation}
      {before after : List Literal}
      {context : Context} :
      Fits schema hole inner context →
      Fits schema hole (.list inner nullable location)
        (.item before after context)
  | only
      {inner : TypeRef}
      {nullable : Bool}
      {location : SourceLocation}
      {context : Context} :
      Fits schema hole inner context →
      (∀ before after deeper,
        context ≠ .item before after deeper) →
      Fits schema hole (.list inner nullable location) context
  | entry
      {name : String}
      {nullable : Bool}
      {location : SourceLocation}
      {type : InputObjectType}
      {before after : Entries Literal}
      {key : String}
      {field : InputValue}
      {context : Context} :
      schema.lookup name = some (.defined (.inputObject type)) →
      type.fields.get? key = some field →
      key ∉ Entries.names (before ++ after) →
      Fits schema hole field.type context →
      Fits schema hole (.named name nullable location)
        (.entry before key after context)

namespace Context

variable {context : Context}

/- Apart from lists, a literal with an object in it is one. -/
theorem fill_object
    (hContext : ∀ before after deeper,
      context ≠ .item before after deeper)
    (entries : Entries Literal) :
    ∃ outer, context.fill (.object entries) = .object outer := by
  cases context with
  | here => exact ⟨_, rfl⟩
  | item before after inner => exact absurd rfl (hContext _ _ _)
  | entry before key after inner => exact ⟨_, rfl⟩

end Context

/- Entries that are coerced alike are alike in an object. -/
theorem literal_object_congr
    {name : String}
    {nullable : Bool}
    {location : SourceLocation}
    {type : InputObjectType}
    {before after : Entries Literal}
    {key : String}
    {field : InputValue}
    {a b : Literal}
    (hLookup : schema.lookup name =
      some (.defined (.inputObject type)))
    (hField : type.fields.get? key = some field)
    (h : ∀ fuel, literal schema bindings fuel field.type a =
      literal schema bindings fuel field.type b)
    (fuel : Nat) :
    literal schema bindings fuel (.named name nullable location)
        (.object (before ++ (key, a) :: after)) =
      literal schema bindings fuel (.named name nullable location)
        (.object (before ++ (key, b) :: after)) := by
  cases fuel with
  | zero => rfl
  | succ fuel =>
      have hFound : inputField type key = pure field := by
        simp only [inputField, hField]
      simp only [literal_object hLookup, provided,
        List.mapM_append, List.mapM_cons, hFound, pure_bind, h]

/- Objects that are coerced alike are alike wherever they are. -/
theorem Context.Fits.literal_congr
    {hole : TypeRef}
    {context : Context}
    {entries others : Entries Literal}
    (hContext : context.Fits schema hole ref)
    (h : ∀ fuel,
      literal schema bindings fuel hole (.object entries) =
        literal schema bindings fuel hole (.object others))
    (fuel : Nat) :
    literal schema bindings fuel ref
        (context.fill (.object entries)) =
      literal schema bindings fuel ref
        (context.fill (.object others)) := by
  induction hContext generalizing fuel with
  | here => exact h fuel
  | item hInner ih =>
      cases fuel with
      | zero => rfl
      | succ fuel =>
          simp only [Context.fill, literal, List.mapM_append,
            List.mapM_cons, ih]
  | only hInner hItem ih =>
      rcases Context.fill_object hItem entries with
        ⟨outer, hOuter⟩
      rcases Context.fill_object hItem others with
        ⟨other, hOther⟩
      rw [hOuter, hOther] at ih ⊢
      cases fuel with
      | zero => rfl
      | succ fuel => simp only [literal, ih]
  | entry hLookup hField _ hInner ih =>
      exact literal_object_congr hLookup hField ih fuel

------------------------------------------------------------
-- Entries
------------------------------------------------------------

/- A pairing with a member in the middle is one of its parts. -/
theorem exists_of_forall₂_append_cons
    {β : Type}
    {Goes : α → β → Prop}
    {before after : List α}
    {a : α}
    {results : List β}
    (h : List.Forall₂ Goes (before ++ a :: after) results) :
    ∃ firsts b lasts, results = firsts ++ b :: lasts ∧
      List.Forall₂ Goes before firsts ∧ Goes a b ∧
        List.Forall₂ Goes after lasts := by
  induction before generalizing results with
  | nil =>
      cases h with
      | cons hFirst hRest =>
          exact ⟨[], _, _, rfl, .nil, hFirst, hRest⟩
  | cons c before ih =>
      cases h with
      | cons hFirst hRest =>
          rcases ih hRest with
            ⟨firsts, b, lasts, rfl, hBefore, hHere, hAfter⟩
          exact ⟨_ :: firsts, b, lasts, rfl, .cons hFirst hBefore,
            hHere, hAfter⟩

section

variable {coerce : TypeRef → Literal → Coercion InputError Json}
variable {fallback : TypeRef → Literal → Coercion InputError Json}
variable {type : InputObjectType}
variable {entries : Entries Literal}
variable {values : Entries Json}
variable {fields : Entries InputValue}
variable {slots : List (Option (String × Json))}
variable {key : String} {field : InputValue}

/- What a field is given is found under its name. -/
theorem exists_slot_of_mem
    (h : List.Forall₂
      (fun entry slot? =>
        FieldResult fallback values entry.1 entry.2 slot?)
      fields slots)
    (hNames : (fields.map Prod.fst).Nodup)
    (hField : (key, field) ∈ fields) :
    ∃ slot?, FieldResult fallback values key field slot? ∧
      Entries.get? (slots.filterMap id) key =
        slot?.map Prod.snd := by
  induction h with
  | nil => cases hField
  | @cons entry slot? fields slots hSlot hRest ih =>
      rw [List.map_cons, List.nodup_cons] at hNames
      rcases List.mem_cons.1 hField with rfl | hLater
      · refine ⟨slot?, hSlot, ?_⟩
        cases slot? with
        | none =>
            exact (Declared.get?_eq_none_iff _ _).2 fun hName =>
              hNames.1 ((names_sublist hRest).subset hName)
        | some slot =>
            simp [Entries.get?, hSlot.name_eq]
      · have hNe : entry.1 ≠ key := by
          rintro rfl
          exact hNames.1 (List.mem_map.2 ⟨_, hLater, rfl⟩)
        rcases ih hNames.2 hLater with ⟨found?, hFound, hGet⟩
        refine ⟨found?, hFound, ?_⟩
        cases slot? with
        | none => exact hGet
        | some slot =>
            simp only [List.filterMap_cons, id_eq, Entries.get?]
            rw [if_neg (by rw [hSlot.name_eq]; exact hNe)]
            exact hGet

/- A field with an entry has it in the object. -/
theorem ObjectResult.get?_of_entry
    {input : Literal}
    (h : ObjectResult coerce coerce type entries values slots)
    (hNames : (type.fields.map Prod.fst).Nodup)
    (hField : type.fields.get? key = some field)
    (hEntry : entries.get? key = some input) :
    ∃ value, values.get? key = some value ∧
      (coerce field.type input).run = some (.ok value) ∧
        Entries.get? (slots.filterMap id) key = some value := by
  rcases h.exists_of_entry hField hEntry with
    ⟨value, hValue, hCoerced, -⟩
  rcases exists_slot_of_mem h.fields hNames
      (Entries.mem_of_get? hField) with
    ⟨slot?, hSlot, hFound⟩
  refine ⟨value, hValue, hCoerced, ?_⟩
  cases hSlot with
  | given hGiven _ =>
      cases hValue.symm.trans hGiven
      exact hFound
  | default hNone _ _ => cases hValue.symm.trans hNone
  | absent hNone _ _ => cases hValue.symm.trans hNone

/- A field without an entry has its default in the object. -/
theorem ObjectResult.get?_of_absent
    {value : Json}
    (h : ObjectResult coerce fallback type entries values slots)
    (hNames : (type.fields.map Prod.fst).Nodup)
    (hField : type.fields.get? key = some field)
    (hEntry : entries.get? key = none)
    (hValue : Entries.get? (slots.filterMap id) key =
      some value) :
    ∃ default, field.default = some default ∧
      (fallback field.type default).run = some (.ok value) := by
  rcases exists_slot_of_mem h.fields hNames
      (Entries.mem_of_get? hField) with
    ⟨slot?, hSlot, hFound⟩
  rw [hValue] at hFound
  have hSame := get?_of_entryResults h.entries key
  cases hSlot with
  | given hGiven _ =>
      rw [hEntry, hGiven] at hSame
      cases hSame
  | default _ hDefault hCoerced =>
      cases hFound
      exact ⟨_, hDefault, hCoerced⟩
  | absent => cases hFound

end

------------------------------------------------------------
-- Literals That Are Coerced
------------------------------------------------------------

/- Entries are coerced alike with more fuel. -/
theorem EntryResult.of_le
    {type : InputObjectType}
    {entry : String × Literal}
    {slot : String × Json}
    (hFuel : fuel ≤ more)
    (h : EntryResult (literal schema bindings fuel) type entry
      slot) :
    EntryResult (literal schema bindings more) type entry slot := by
  rcases h with ⟨hName, field, hField, hCoerced⟩
  exact ⟨hName, field, hField, literal_of_le hFuel hCoerced⟩

/- Fields are given what they are with more fuel. -/
theorem FieldResult.of_le
    {values : Entries Json}
    {name : String}
    {field : InputValue}
    {slot? : Option (String × Json)}
    (hFuel : fuel ≤ more)
    (h : FieldResult (literal schema bindings fuel) values name
      field slot?) :
    FieldResult (literal schema bindings more) values name field
      slot? := by
  cases h with
  | given hValue hNull => exact .given hValue hNull
  | default hValue hDefault hCoerced =>
      exact .default hValue hDefault
        (literal_of_le hFuel hCoerced)
  | absent hValue hDefault hNullable =>
      exact .absent hValue hDefault hNullable

/- A field is given what it is by the entry of its name. -/
theorem FieldResult.of_get?_eq
    {fallback : TypeRef → Literal → Coercion InputError Json}
    {values others : Entries Json}
    {name : String}
    {field : InputValue}
    {slot? : Option (String × Json)}
    (hSame : others.get? name = values.get? name)
    (h : FieldResult fallback values name field slot?) :
    FieldResult fallback others name field slot? := by
  cases h with
  | given hValue hNull =>
      exact .given (hSame.trans hValue) hNull
  | default hValue hDefault hCoerced =>
      exact .default (hSame.trans hValue) hDefault hCoerced
  | absent hValue hDefault hNullable =>
      exact .absent (hSame.trans hValue) hDefault hNullable

/- Literals are coerced together with one amount of fuel. -/
theorem exists_fuel
    {items : List Literal}
    {results : List Json}
    (h : List.Forall₂ (Coerces schema bindings ref) items
      results) :
    ∃ fuel, List.Forall₂
      (fun item result =>
        (literal schema bindings fuel ref item).run =
          some (.ok result))
      items results := by
  induction h with
  | nil => exact ⟨0, .nil⟩
  | cons hFirst _ ih =>
      rcases hFirst with ⟨fuel, hFirst⟩
      rcases ih with ⟨more, hRest⟩
      refine ⟨max fuel more,
        .cons (literal_of_le (Nat.le_max_left _ _) hFirst) ?_⟩
      exact hRest.imp fun _ _ hItem =>
        literal_of_le (Nat.le_max_right _ _) hItem

/- Coercion takes some fuel. -/
theorem coerces_iff_exists_succ
    {input : Literal} :
    Coerces schema bindings ref input result ↔
      ∃ fuel, (literal schema bindings (fuel + 1) ref input).run =
        some (.ok result) := by
  constructor
  · rintro ⟨fuel, h⟩
    cases fuel with
    | zero => cases h
    | succ fuel => exact ⟨fuel, h⟩
  · rintro ⟨fuel, h⟩
    exact ⟨fuel + 1, h⟩

/- A list is coerced to the list of what its items are. -/
theorem coerces_list_iff
    {nullable : Bool}
    {location : SourceLocation}
    {items : List Literal} :
    Coerces schema bindings (.list ref nullable location)
        (.list items) result ↔
      ∃ results, result = .array results ∧
        List.Forall₂ (Coerces schema bindings ref) items
          results := by
  have hInput : ∀ name, Literal.list items ≠ .variable name :=
    nofun
  rw [coerces_iff_exists_succ]
  simp only [literal_run_iff hInput]
  constructor
  · rintro ⟨fuel, h⟩
    cases h with
    | null hNull _ => cases hNull
    | items _ hItems hResults =>
        cases hItems
        exact ⟨_, rfl, hResults.imp fun _ _ hItem =>
          ⟨fuel, hItem⟩⟩
    | item _ hItems _ => cases hItems
  · rintro ⟨results, rfl, hResults⟩
    rcases exists_fuel hResults with ⟨fuel, hResults⟩
    exact ⟨fuel, .items rfl rfl hResults⟩

/- An object is coerced to the only item of a list. -/
theorem coerces_only_iff
    {nullable : Bool}
    {location : SourceLocation}
    {entries : Entries Literal} :
    Coerces schema bindings (.list ref nullable location)
        (.object entries) result ↔
      ∃ only, result = .array [only] ∧
        Coerces schema bindings ref (.object entries) only := by
  have hInput : ∀ name,
      Literal.object entries ≠ .variable name :=
    nofun
  rw [coerces_iff_exists_succ]
  simp only [literal_run_iff hInput]
  constructor
  · rintro ⟨fuel, h⟩
    cases h with
    | null hNull _ => cases hNull
    | items _ hItems _ => cases hItems
    | item _ _ hOnly => exact ⟨_, rfl, fuel, hOnly⟩
  · rintro ⟨only, rfl, fuel, hOnly⟩
    exact ⟨fuel, .item rfl rfl hOnly⟩

/- An object is coerced with all of its entries and fields. -/
theorem coerces_object_iff
    {name : String}
    {nullable : Bool}
    {location : SourceLocation}
    {type : InputObjectType}
    {entries : Entries Literal}
    (hLookup : schema.lookup name =
      some (.defined (.inputObject type))) :
    Coerces schema bindings (.named name nullable location)
        (.object entries) result ↔
      ∃ fuel values slots,
        ObjectResult (literal schema bindings fuel)
            (literal schema bindings fuel) type entries values
            slots ∧
          result = .object (slots.filterMap id) := by
  rw [coerces_iff_exists_succ]
  refine exists_congr fun fuel => ?_
  rw [literal_object hLookup, objectResult_iff]

/- An entry in the middle is found, if no other has its name. -/
theorem get?_entry
    {before after : Entries Literal}
    {key : String}
    {input : Literal}
    (hKey : key ∉ Entries.names (before ++ after)) :
    Entries.get? (before ++ (key, input) :: after) key =
      some input := by
  have hBefore : Entries.get? before key = none := by
    refine (Declared.get?_eq_none_iff _ _).2 ?_
    intro hName
    apply hKey
    rw [Entries.names, List.map_append]
    exact List.mem_append_left _ hName
  rw [Entries.get?_append, hBefore, Option.none_or, Entries.get?,
    if_pos rfl]

/-
  Where a literal is coerced alike with two objects in its hole,
  so are the objects.
-/
theorem Context.Fits.exists_result
    {hole : TypeRef}
    {context : Context}
    {entries others : Entries Literal}
    (hFields : FieldsDistinct schema)
    (hContext : context.Fits schema hole ref)
    (h : Coerces schema bindings ref
      (context.fill (.object entries)) result)
    (hOther : Coerces schema bindings ref
      (context.fill (.object others)) result) :
    ∃ value,
      Coerces schema bindings hole (.object entries) value ∧
        Coerces schema bindings hole (.object others) value := by
  induction hContext generalizing result with
  | here => exact ⟨result, h, hOther⟩
  | item _ ih =>
      rcases coerces_list_iff.1 h with ⟨results, rfl, hResults⟩
      rcases coerces_list_iff.1 hOther with
        ⟨same, hSame, hOthers⟩
      cases hSame
      rcases exists_of_forall₂_append_cons hResults with
        ⟨firsts, value, lasts, rfl, hFirsts, hValue, -⟩
      rcases exists_of_forall₂_append_cons hOthers with
        ⟨firsts', value', lasts', hSame, hFirsts', hValue', -⟩
      have hLength : firsts.length = firsts'.length :=
        hFirsts.length_eq.symm.trans hFirsts'.length_eq
      rcases List.append_inj hSame hLength with ⟨-, hRest⟩
      cases hRest
      exact ih hValue hValue'
  | only _ hItem ih =>
      rcases fill_object hItem entries with
        ⟨outer, hOuter⟩
      rcases fill_object hItem others with
        ⟨outer', hOuter'⟩
      rw [hOuter] at h
      rw [hOuter'] at hOther
      rcases coerces_only_iff.1 h with ⟨only, rfl, hOnly⟩
      rcases coerces_only_iff.1 hOther with ⟨_, ⟨⟩, hOnly'⟩
      rw [hOuter, hOuter'] at ih
      exact ih hOnly hOnly'
  | entry hLookup hField hKey _ ih =>
      have hDistinct := hFields _ (TypeGraph.mem_of_lookup hLookup)
      rcases (coerces_object_iff hLookup).1 h with
        ⟨fuel, values, slots, hObject, rfl⟩
      rcases (coerces_object_iff hLookup).1 hOther with
        ⟨fuel', values', slots', hObject', hSame⟩
      rcases hObject.get?_of_entry hDistinct hField
          (get?_entry hKey) with
        ⟨value, -, hValue, hFound⟩
      rcases hObject'.get?_of_entry hDistinct hField
          (get?_entry hKey) with
        ⟨value', -, hValue', hFound'⟩
      rw [← Json.object.inj hSame, hFound] at hFound'
      cases hFound'
      exact ih ⟨fuel, hValue⟩ ⟨fuel', hValue'⟩

/-
  An object is coerced alike with another entry in the middle
  that is coerced alike.
-/
theorem coerces_object_of_entry
    {name : String}
    {nullable : Bool}
    {location : SourceLocation}
    {type : InputObjectType}
    {before after : Entries Literal}
    {key : String}
    {field : InputValue}
    {a b : Literal}
    (hLookup : schema.lookup name =
      some (.defined (.inputObject type)))
    (hField : type.fields.get? key = some field)
    (hSame : ∀ value, Coerces schema bindings field.type a value →
      Coerces schema bindings field.type b value)
    (h : Coerces schema bindings (.named name nullable location)
      (.object (before ++ (key, a) :: after)) result) :
    Coerces schema bindings (.named name nullable location)
      (.object (before ++ (key, b) :: after)) result := by
  rcases (coerces_object_iff hLookup).1 h with
    ⟨fuel, values, slots, hObject, rfl⟩
  rcases exists_of_forall₂_append_cons hObject.entries with
    ⟨firsts, ⟨other, value⟩, lasts, rfl, hFirsts, hEntry, hLasts⟩
  rcases hEntry with ⟨hName, found, hFound, hCoerced⟩
  cases hName
  cases hField.symm.trans hFound
  rcases hSame value ⟨fuel, hCoerced⟩ with ⟨more, hOther⟩
  have hFuel := Nat.le_max_left fuel more
  refine (coerces_object_iff hLookup).2
    ⟨max fuel more, firsts ++ (key, value) :: lasts, slots,
      ⟨?_, ?_⟩, rfl⟩
  · exact List.rel_append
      (hFirsts.imp fun _ _ hFirst => hFirst.of_le hFuel)
      (.cons
        ⟨rfl, field, hField,
          literal_of_le (Nat.le_max_right _ _) hOther⟩
        (hLasts.imp fun _ _ hLast => hLast.of_le hFuel))
  · exact hObject.fields.imp fun _ _ hSlot => hSlot.of_le hFuel

/-
  Where an object in the hole of a literal gives way to one that
  is coerced alike, the literal is coerced alike.
-/
theorem Context.Fits.coerces_fill
    {hole : TypeRef}
    {context : Context}
    {entries others : Entries Literal}
    (hContext : context.Fits schema hole ref)
    (hSame : ∀ value,
      Coerces schema bindings hole (.object entries) value →
        Coerces schema bindings hole (.object others) value)
    (h : Coerces schema bindings ref
      (context.fill (.object entries)) result) :
    Coerces schema bindings ref
      (context.fill (.object others)) result := by
  induction hContext generalizing result with
  | here => exact hSame result h
  | item _ ih =>
      rcases coerces_list_iff.1 h with ⟨results, rfl, hResults⟩
      rcases exists_of_forall₂_append_cons hResults with
        ⟨firsts, value, lasts, rfl, hFirsts, hValue, hLasts⟩
      exact coerces_list_iff.2
        ⟨_, rfl,
          List.rel_append hFirsts (.cons (ih hValue) hLasts)⟩
  | only _ hItem ih =>
      rcases fill_object hItem entries with ⟨outer, hOuter⟩
      rcases fill_object hItem others with ⟨outer', hOuter'⟩
      rw [hOuter, hOuter'] at ih
      rw [hOuter] at h
      rw [hOuter']
      rcases coerces_only_iff.1 h with ⟨only, rfl, hOnly⟩
      exact coerces_only_iff.2 ⟨only, rfl, ih hOnly⟩
  | entry hLookup hField _ _ ih =>
      exact coerces_object_of_entry hLookup hField
        (fun _ hValue => ih hValue) h

------------------------------------------------------------
-- Entries Without A Value
------------------------------------------------------------

section

variable {var : String} (hUnset : bindings.get? var = none)

include hUnset

/- A variable without a value is null where null may be. -/
theorem literal_of_unset
    (hNullable : ref.nullable = true)
    (fuel : Nat) :
    literal schema bindings fuel ref (.variable var) =
      literal schema bindings fuel ref .null := by
  cases fuel with
  | zero => rfl
  | succ fuel => simp only [literal, hUnset, hNullable, if_true]

/- It is coerced to null there, and to nothing elsewhere. -/
theorem null_of_unset
    (h : (literal schema bindings fuel ref (.variable var)).run =
      some (.ok result)) :
    ref.nullable = true ∧ result = .null := by
  cases fuel with
  | zero => cases h
  | succ fuel =>
      simp only [literal, hUnset] at h
      split at h
      · next hNullable =>
          cases h
          exact ⟨hNullable, rfl⟩
      · cases h

variable {name : String}
variable {nullable : Bool}
variable {location : SourceLocation}
variable {type : InputObjectType}
variable {before after : Entries Literal}
variable {key : String}
variable {field : InputValue}
variable (hFields : FieldsDistinct schema)
variable (hLookup : schema.lookup name =
  some (.defined (.inputObject type)))
variable (hField : type.fields.get? key = some field)
variable (hKey : key ∉ Entries.names (before ++ after))

include hLookup hField hKey

/- An object with such an entry needs a field that may be null. -/
theorem nullable_of_unset_entry
    (h : Coerces schema bindings (.named name nullable location)
      (.object (before ++ (key, .variable var) :: after))
      result) :
    field.type.nullable = true := by
  rcases (coerces_object_iff hLookup).1 h with
    ⟨fuel, values, slots, hObject, -⟩
  rcases hObject.exists_of_entry hField (get?_entry hKey) with
    ⟨value, -, hCoerced, -⟩
  exact (null_of_unset hUnset hCoerced).1

include hFields

/-
  If the object is the same without the entry, the default of
  the field is null.
-/
theorem null_default_of_coerces
    (h : Coerces schema bindings (.named name nullable location)
      (.object (before ++ (key, .variable var) :: after)) result)
    (hLacking :
      Coerces schema bindings (.named name nullable location)
        (.object (before ++ after)) result) :
    ∃ default, field.default = some default ∧
      Coerces schema bindings field.type default .null := by
  have hDistinct := hFields _ (TypeGraph.mem_of_lookup hLookup)
  have hLacks : Entries.get? (before ++ after) key = none :=
    (Declared.get?_eq_none_iff _ _).2 hKey
  rcases (coerces_object_iff hLookup).1 h with
    ⟨fuel, values, slots, hObject, rfl⟩
  rcases hObject.get?_of_entry hDistinct hField
      (get?_entry hKey) with
    ⟨value, -, hCoerced, hFound⟩
  cases (null_of_unset hUnset hCoerced).2
  rcases (coerces_object_iff hLookup).1 hLacking with
    ⟨more, others, slots', hOther, hSame⟩
  rw [Json.object.inj hSame] at hFound
  rcases hOther.get?_of_absent hDistinct hField hLacks hFound with
    ⟨default, hDefault, hNull⟩
  exact ⟨default, hDefault, more, hNull⟩

/-
  If the default of the field is null, the object is the same
  without the entry.
-/
theorem coerces_of_null_default
    {default : Literal}
    (hDefault : field.default = some default)
    (hNull : Coerces schema bindings field.type default .null)
    (h : Coerces schema bindings (.named name nullable location)
      (.object (before ++ (key, .variable var) :: after))
      result) :
    Coerces schema bindings (.named name nullable location)
      (.object (before ++ after)) result := by
  have hDistinct := hFields _ (TypeGraph.mem_of_lookup hLookup)
  rcases (coerces_object_iff hLookup).1 h with
    ⟨fuel, values, slots, hObject, rfl⟩
  rcases hNull with ⟨more, hNull⟩
  have hFuel := Nat.le_max_left fuel more
  rcases hObject.exists_of_entry hField (get?_entry hKey) with
    ⟨given, hGiven, hCoerced, -⟩
  cases (null_of_unset hUnset hCoerced).2
  rcases exists_of_forall₂_append_cons hObject.entries with
    ⟨firsts, ⟨other, value⟩, lasts, rfl, hFirsts, hEntry, hLasts⟩
  cases hEntry.name_eq
  have hEntries : List.Forall₂
      (EntryResult (literal schema bindings (max fuel more)) type)
      (before ++ after) (firsts ++ lasts) :=
    List.rel_append
      (hFirsts.imp fun _ _ hFirst => hFirst.of_le hFuel)
      (hLasts.imp fun _ _ hLast => hLast.of_le hFuel)
  have hNone : Entries.get? (firsts ++ lasts) key = none := by
    have hSame := get?_of_entryResults hEntries key
    rw [(Declared.get?_eq_none_iff _ _).2 hKey] at hSame
    generalize Entries.get? (firsts ++ lasts) key = value? at hSame
    cases hSame
    rfl
  refine (coerces_object_iff hLookup).2
    ⟨max fuel more, firsts ++ lasts, slots, ⟨hEntries, ?_⟩, rfl⟩
  have hMembers : List.Forall₂
      (fun entry slot? => entry ∈ type.fields ∧
        FieldResult (literal schema bindings fuel)
          (firsts ++ (key, value) :: lasts) entry.1 entry.2
          slot?)
      type.fields slots :=
    (List.forall₂_and_left _ _).2
      ⟨fun _ hMember => hMember, hObject.fields⟩
  refine hMembers.imp ?_
  rintro ⟨other, member⟩ slot? ⟨hMember, hSlot⟩
  by_cases hName : other = key
  · subst hName
    have hFound := Entries.get?_eq_some_of_mem hDistinct hMember
    cases hField.symm.trans hFound
    cases hSlot with
    | given hValue _ =>
        cases hGiven.symm.trans hValue
        exact .default hNone hDefault
          (literal_of_le (Nat.le_max_right _ _) hNull)
    | default hAbsent _ _ => cases hGiven.symm.trans hAbsent
    | absent hAbsent _ _ => cases hGiven.symm.trans hAbsent
  · refine (hSlot.of_le hFuel).of_get?_eq ?_
    rw [Entries.get?_append, Entries.get?_append, Entries.get?,
      if_neg (Ne.symm hName)]

end

/- A variable without a value is given for an argument. -/
theorem argument_of_unset
    {given lacking : Entries Literal}
    {name var : String}
    {declared : InputValue}
    {slot? : Option (String × Json)}
    (hUnset : bindings.get? var = none)
    (hGiven : given.get? name = some (.variable var))
    (hLacking : lacking.get? name = none) :
    (argument schema bindings fuel given name declared).run =
        some (.ok slot?) ↔
      (argument schema bindings fuel lacking name declared).run =
        some (.ok slot?) := by
  rw [argument_of_unbound hGiven hUnset, argument, hLacking]

/-
  An argument that is given by a variable without a value is as
  if it were not given. An entry of an object that is given by
  one, wherever the object is in a literal, is as if null were
  given: the literal is refused where the field must not be
  null, and otherwise it is the same as without the entry only
  if the field has a default that is null.
-/
theorem unset_entry_is_null
    (hFields : FieldsDistinct schema)
    {var : String}
    (hUnset : bindings.get? var = none) :
    (∀ name declared slot?, ∀ given lacking : Entries Literal,
      given.get? name = some (.variable var) →
      lacking.get? name = none →
      ((argument schema bindings fuel given name declared).run =
          some (.ok slot?) ↔
        (argument schema bindings fuel lacking name
          declared).run = some (.ok slot?))) ∧
    ∀ name nullable location type before after key field context,
      schema.lookup name = some (.defined (.inputObject type)) →
      type.fields.get? key = some field →
      key ∉ Entries.names (before ++ after) →
      Context.Fits schema (.named name nullable location) ref
        context →
      (field.type.nullable = true →
        literal schema bindings fuel ref (context.fill
            (.object (before ++ (key, .variable var) :: after))) =
          literal schema bindings fuel ref (context.fill
            (.object (before ++ (key, .null) :: after)))) ∧
      ∀ result,
        Coerces schema bindings ref (context.fill
            (.object (before ++ (key, .variable var) :: after)))
            result →
          field.type.nullable = true ∧
          (Coerces schema bindings ref
              (context.fill (.object (before ++ after))) result ↔
            ∃ default, field.default = some default ∧
              Coerces schema bindings field.type default
                .null) := by
  refine ⟨?_, ?_⟩
  · intro name declared slot? given lacking hGiven hLacking
    exact argument_of_unset hUnset hGiven hLacking
  · intro name nullable location type before after key field
      context hLookup hField hKey hContext
    refine ⟨?_, ?_⟩
    · intro hNullable
      refine hContext.literal_congr ?_ fuel
      exact literal_object_congr hLookup hField
        (literal_of_unset hUnset hNullable)
    · intro result h
      rcases hContext.exists_result hFields h h with
        ⟨value, hObject, -⟩
      refine ⟨nullable_of_unset_entry hUnset hLookup hField hKey
        hObject, ?_, ?_⟩
      · intro hLacking
        rcases hContext.exists_result hFields h hLacking with
          ⟨same, hGiven, hLacking⟩
        exact null_default_of_coerces hUnset hFields hLookup
          hField hKey hGiven hLacking
      · rintro ⟨default, hDefault, hNull⟩
        refine hContext.coerces_fill ?_ h
        intro other hOther
        exact coerces_of_null_default hUnset hFields hLookup
          hField hKey hDefault hNull hOther

end Coercion

------------------------------------------------------------
-- Sizes
------------------------------------------------------------

namespace Paging

open Coercion

/- The window of the only page of a list. -/
def onlyWindow : Context :=
  .item [] [] (.entry [] "window" [] .here)

/- The pages with some size of the window. -/
def sized (size : Json) : Json :=
  .array [.object [("window", .object [("size", size)])]]

theorem onlyWindow_fits :
    onlyWindow.Fits schema (.ofName "Window" true)
      (.ofList (.ofName "Page" true) true) :=
  .item
    (@Context.Fits.entry schema _ "Page" true .programmatic page
      [] [] "window" _ _ rfl rfl (List.not_mem_nil) .here)

/-
  Without a value for its size, the window has none, though it
  would have its default were the size not given.
-/
theorem size_without_value :
    (argument schema [] 5 [("windows", .variable "size")]
        "windows" windows).run = some (.ok none) ∧
      Coerces schema [] (.ofList (.ofName "Page" true) true)
        (onlyWindow.fill (.object [("size", .variable "size")]))
        (sized .null) ∧
      ¬Coerces schema [] (.ofList (.ofName "Page" true) true)
        (onlyWindow.fill (.object [])) (sized .null) := by
  have hGiven :
      Coerces schema [] (.ofList (.ofName "Page" true) true)
        (onlyWindow.fill (.object [("size", .variable "size")]))
        (sized .null) := by
    refine ⟨5, ?_⟩
    with_unfolding_all rfl
  have hUnset := @unset_entry_is_null schema [] 5
    (.ofList (.ofName "Page" true) true) fieldsDistinct "size" rfl
  refine ⟨?_, hGiven, ?_⟩
  · refine (hUnset.1 _ _ _ _ [] rfl rfl).2 ?_
    with_unfolding_all rfl
  · intro hLacking
    rcases ((hUnset.2 "Window" true .programmatic window [] []
        "size" _ onlyWindow rfl rfl List.not_mem_nil
        onlyWindow_fits).2 _ hGiven).2.1 hLacking with
      ⟨default, hDefault, fuel, hNull⟩
    cases hDefault
    cases fuel with
    | zero => cases hNull
    | succ fuel => cases hNull

end Paging

------------------------------------------------------------
-- Frames
------------------------------------------------------------

namespace Frames

open Catalogue (position place)
open Coercion

/- A field that takes a frame, the width of which is 3. -/
def document : TypeSystemDocument :=
  [ .type
      ⟨position, none, "Query", [],
        .object []
          [⟨position, none, "image",
            [⟨position, none, "frame", .named "Frame", none,
              []⟩],
            .named "String", []⟩]⟩,
    .type
      ⟨position, none, "Frame", [],
        .inputObject
          [⟨position, none, "width", .named "Int",
            some (.int 3), []⟩]⟩]

/-
  The width of a frame is null where it is given by a variable
  without a value, and 3 where it is not given.
-/
theorem width_without_value :
    ∃ pass schema,
      Pass.empty.load none document = .ok pass ∧
        pass.build none = .ok schema ∧
        (literal schema [] 3 (.named "Frame" true place)
            (.object [("width", .variable "width")])).run =
          some (.ok (.object [("width", .null)])) ∧
        (literal schema [] 3 (.named "Frame" true place)
            (.object [])).run =
          some (.ok (.object [("width", .ofInt 3)])) := by
  have hSeen : (do
      let pass ← Pass.empty.load none document
      let schema ← pass.build none
      return ((literal schema [] 3 (.named "Frame" true place)
          (.object [("width", .variable "width")])).run,
        (literal schema [] 3 (.named "Frame" true place)
          (.object [])).run)) =
        .ok
          (some (.ok (.object [("width", .null)])),
            some (.ok (.object [("width", .ofInt 3)]))) := by
    with_unfolding_all rfl
  rcases Schema.exists_of_document hSeen with
    ⟨pass, schema, hLoad, hBuild, hPair⟩
  rcases Prod.mk.inj hPair with ⟨hGiven, hLacking⟩
  exact ⟨pass, schema, hLoad, hBuild, hGiven, hLacking⟩

end Frames

end GraphQL
