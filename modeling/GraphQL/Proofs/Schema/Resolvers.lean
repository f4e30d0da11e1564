import Mathlib.Logic.Relation
import GraphQL.Proofs.Schema.Undecorated
import GraphQL.Proofs.Schema.Lasting

/-
  Resolvers of fields are written once.

  A field that has a resolver has the same one in all schemas
  that extend its schema, however often and with whatever
  decorators.

  Key definitions include:
    * `Schema.resolver?`
    * `Draft.Resolves`: a draft whose types have a resolver
    * `Schema.ExtendedBy`: one schema extends another one

  Main declarations:
    * `Pass.resolver?_of_finished`
    * `Schema.ExtendedBy.resolver?_eq`
    * `Schema.resolver_written_once`
-/

------------------------------------------------------------
-- Resolvers
------------------------------------------------------------

namespace GraphQL

namespace NamedType

/- The resolver of a field, if the type has such a field. -/
def resolver? (type : NamedType) (field : String) :
    Option Hook := do
  let shape ← type.shape?
  (← shape.fields.get? field).resolver

theorem resolver?_eq_some_iff
    {type : NamedType}
    {name : String}
    {hook : Hook} :
    type.resolver? name = some hook ↔
      ∃ shape field, type.shape? = some shape ∧
        shape.fields.get? name = some field ∧
        field.resolver = some hook := by
  simp only [resolver?, Option.bind_eq_bind,
    Option.bind_eq_some_iff]
  constructor
  · rintro ⟨shape, hShape, field, hField, hHook⟩
    exact ⟨shape, field, hShape, hField, hHook⟩
  · rintro ⟨shape, field, hShape, hField, hHook⟩
    exact ⟨shape, hShape, field, hField, hHook⟩

end NamedType

namespace TypeDef

/- The resolver of a field of a defined type. -/
def resolver? (type : TypeDef) (field : String) :
    Option Hook :=
  (NamedType.defined type).resolver? field

variable {type next : TypeDef} {name : String} {hook : Hook}

/- Extensions leave the fields of a type alone. -/
theorem Extends.resolver?_eq
    {location : SourceLocation}
    {extension : TypeExtension}
    (h : Extends location extension type next)
    (hHook : type.resolver? name = some hook) :
    next.resolver? name = some hook := by
  rcases NamedType.resolver?_eq_some_iff.1 hHook with
    ⟨shape, field, hShape, hField, hResolver⟩
  have hAdded : ∀ added : Entries OutputField,
      Entries.get? (shape.fields ++ added) name =
        some field := by
    intro added
    rw [Entries.get?_append, hField, Option.some_or]
  apply NamedType.resolver?_eq_some_iff.2
  cases h with
  | object _ _ _ =>
      cases hShape
      exact ⟨_, field, rfl, hAdded _, hResolver⟩
  | interface _ _ _ _ =>
      cases hShape
      exact ⟨_, field, rfl, hAdded _, hResolver⟩
  | _ => cases hShape

end TypeDef

/- Decorators leave the resolver of a field alone. -/
theorem Protection.resolver?_of_check
    {expected : List String}
    {given kept : TypeDef}
    {name : String}
    {hook : Hook}
    (h : check expected given kept = .ok ())
    (hHook : given.resolver? name = some hook) :
    kept.resolver? name = some hook := by
  rcases NamedType.resolver?_eq_some_iff.1 hHook with
    ⟨shape, field, hShape, hField, hResolver⟩
  simp only [check, Results.bind_eq_ok_iff, require_eq_ok_iff,
    beq_iff_eq] at h
  rcases h with ⟨-, hKind, -, -, -, -, hBody⟩
  have hKept : ∀ {isSdl : Bool} {shape' : FieldShape},
      checkShape given.name isSdl expected shape shape' =
          .ok () →
        ∃ field', shape'.fields.get? name = some field' ∧
          field'.resolver = some hook := by
    intro isSdl shape' hCheck
    rcases Results.bind_eq_ok_iff.1 hCheck with ⟨_, -, hFields⟩
    have hFound :=
      (keepsField_of_checkFields hFields).rel_get? name
    rw [hField] at hFound
    rcases exists_of_rel_some hFound with
      ⟨field', hField', hKeeps⟩
    refine ⟨field', hField', ?_⟩
    rw [hKeeps.resolver (by simp [hResolver]), hResolver]
  apply NamedType.resolver?_eq_some_iff.2
  cases given <;> cases hShape
  · cases kept <;> cases hKind
    rcases hKept hBody with ⟨field', hField', hSame⟩
    exact ⟨_, field', rfl, hField', hSame⟩
  · cases kept <;> cases hKind
    rcases hKept hBody with ⟨field', hField', hSame⟩
    exact ⟨_, field', rfl, hField', hSame⟩

------------------------------------------------------------
-- Passes
------------------------------------------------------------

/- A draft in which a field of a type has a resolver. -/
def Draft.Resolves
    (draft : Draft)
    (type name : String)
    (hook : Hook) : Prop :=
  ∃ entry, draft.find? type = some entry ∧
    entry.type.resolver? name = some hook

namespace Pass

variable {start pass : Pass} {type name : String} {hook : Hook}

/- A pass never takes a resolver away. -/
theorem Grows.resolves
    (h : start.Grows pass)
    (hStart : start.draft.Resolves type name hook) :
    pass.draft.Resolves type name hook :=
  h.has (fun hExtends hHook => hExtends.resolver?_eq hHook)
    hStart

/- A field keeps its resolver when its type is finished. -/
theorem resolver?_of_finished
    {decorator? : Option Decorator}
    {entry : DraftEntry}
    {type : TypeDef}
    (h : finished decorator? entry = .ok type)
    (hHook : entry.type.resolver? name = some hook) :
    type.resolver? name = some hook := by
  rcases of_finished h with rfl | ⟨decorator, -, hApply⟩
  · exact hHook
  · rcases Decorator.apply_eq_ok_iff.1 hApply with ⟨hCheck, -⟩
    exact Protection.resolver?_of_check hCheck hHook

end Pass

------------------------------------------------------------
-- Schemas
------------------------------------------------------------

namespace Schema

/- The resolver of a field, if there is such a type and field. -/
def resolver? (schema : Schema) (type field : String) :
    Option Hook := do
  (← schema.lookup type).resolver? field

/- Extend a schema once, with a decorator or without one. -/
inductive ExtendedBy (base : Schema) : Schema → Prop where
  | pass {pass : Pass} {decorator? : Option Decorator}
      {schema : Schema} :
      Pass.Grows (.ofSchema base) pass →
      (base.finishExtension pass decorator?).result =
        .ok schema →
      ExtendedBy base schema

variable {base later : Schema} {type name : String} {hook : Hook}

/- A pass over a schema starts with all its resolvers. -/
theorem resolves_ofSchema
    (h : base.resolver? type name = some hook) :
    (Pass.ofSchema base).draft.Resolves type name hook := by
  simp only [resolver?, Option.bind_eq_bind,
    Option.bind_eq_some_iff] at h
  rcases h with ⟨found, hFound, hHook⟩
  cases found with
  | builtin scalar => cases hHook
  | defined found =>
      exact ⟨_, TypeGraph.find?_ofGraph hFound, hHook⟩

/- A schema has the resolvers of the pass it is built of. -/
theorem resolver?_of_build
    {pass : Pass}
    {decorator? : Option Decorator}
    (hBuild : pass.build decorator? = .ok later)
    (hPass : pass.draft.Resolves type name hook) :
    later.resolver? type name = some hook := by
  rcases exists_of_build
      (fun hExtends hHook => hExtends.resolver?_eq hHook)
      Pass.resolver?_of_finished hBuild hPass with
    ⟨found, hLookup, hHook⟩
  simp only [resolver?, hLookup]
  exact hHook

/- One extension leaves the resolvers of fields alone. -/
theorem ExtendedBy.resolver?_eq
    (h : base.ExtendedBy later)
    (hHook : base.resolver? type name = some hook) :
    later.resolver? type name = some hook := by
  rcases h with ⟨hGrows, hFinish⟩
  rw [result_finishExtension] at hFinish
  exact resolver?_of_build hFinish
    (hGrows.resolves (resolves_ofSchema hHook))

/-
  A field that has a resolver still has the same one after any
  number of extensions.
-/
theorem resolver_written_once
    (h : Relation.ReflTransGen ExtendedBy base later)
    (hHook : base.resolver? type name = some hook) :
    later.resolver? type name = some hook := by
  induction h with
  | refl => exact hHook
  | tail _ hStep ih => exact hStep.resolver?_eq ih

end Schema

------------------------------------------------------------
-- A Catalogue
------------------------------------------------------------

namespace Catalogue

/- The catalogue with a resolver for its items. -/
def resolved : Schema :=
  let items := field "items"
    (.list (.named "Item" true place) true place)
  let resolvedItems : String × OutputField :=
    (items.1, { items.2 with resolver := some (.ofKey 1) })
  { schema with
    types :=
      { types := TypeGraph.builtin.types ++
          [ .defined (.interface item), .defined (.object book),
            .defined (.object
              { query with
                shape :=
                  { query.shape with
                    fields := [resolvedItems] } })]
        nodup_names := by decide } }

theorem build_resolvers :
    pass.build (some resolvers) = .ok resolved := by
  with_unfolding_all rfl

/- A resolver for the length of films. -/
def filmResolvers : Decorator :=
  (ResolverMap.resolver [] "Film" "minutes"
    (.ofKey 2)).decorator

/- Items are resolved as before in a catalogue with films. -/
theorem items_resolved :
    pass.build (some resolvers) = .ok resolved ∧
      ∃ extended,
        resolved.extend [supplement] (some filmResolvers) =
            .ok extended ∧
          extended.resolver? "Query" "items" =
            some (.ofKey 1) := by
  refine ⟨build_resolvers, ?_⟩
  have hOk :
      (resolved.extend [supplement] (some filmResolvers)).isOk =
        true := by
    with_unfolding_all rfl
  cases hExtended :
      resolved.extend [supplement] (some filmResolvers) with
  | error error =>
      rw [hExtended] at hOk
      cases hOk
  | ok extended =>
      unfold Schema.extend at hExtended
      simp only [List.foldlM_cons, List.foldlM_nil, bind_pure]
        at hExtended
      rcases Results.bind_eq_ok_iff.1 hExtended with
        ⟨next, hNext, hBuild⟩
      have hStep : resolved.ExtendedBy extended :=
        .pass (.load .start hNext)
          ((Schema.result_finishExtension _ _ _).trans hBuild)
      exact
        ⟨extended, rfl,
          Schema.resolver_written_once (.single hStep)
            (by rfl)⟩

end Catalogue

end GraphQL
