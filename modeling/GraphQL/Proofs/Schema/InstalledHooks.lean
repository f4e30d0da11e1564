import GraphQL.Proofs.Schema.Provenance
import GraphQL.Proofs.Schema.Touched

/-
  Hooks that a resolver map installs.

  A map names types, and for each of them the places of hooks:
  fields and the hooks of the type itself. If a pass succeeds
  with a map, then all its types were touched by the pass. A
  hook is in effect exactly if types of that kind have such a
  place. Where they have none, it is left out without notice.

  Key definitions include:
    * `HookPlace`, `HookPlace.isOn`
    * `TypeDef.hook?`, `TypeHooks.hook?`

  Main declarations:
    * `ResolverMap.hook?_decorate`
    * `Pass.exists_installed_iff`
    * `Episodes.resolver_left_out`
-/

------------------------------------------------------------
-- Places Of Hooks
------------------------------------------------------------

namespace GraphQL

/- Where a resolver map may put a hook in a type. -/
inductive HookPlace where
  | field (name : String)
  | isTypeOf
  | resolveField
  | resolveType
  deriving DecidableEq, Repr

/- Whether types of a kind have a place. -/
def HookPlace.isOn : HookPlace → TypeKind → Bool
| .field _, kind => kind == .object || kind == .interface
| .isTypeOf, kind => kind == .object
| .resolveField, kind => kind == .object || kind == .interface
| .resolveType, kind => kind == .interface || kind == .union

namespace TypeDef

/- The hook of the objects of a type that recognises them. -/
def isTypeOf? : TypeDef → Option Hook
| object type => type.isTypeOf
| _ => none

/- The hook that resolves the fields without a resolver. -/
def resolveField? : TypeDef → Option Hook
| object type => type.shape.resolveField
| interface type => type.shape.resolveField
| _ => none

/- The hook that names the object types of values. -/
def resolveType? : TypeDef → Option Hook
| interface type => type.resolveType
| union type => type.resolveType
| _ => none

/- The hook at a place of a type. -/
def hook? (type : TypeDef) : HookPlace → Option Hook
| .field name => type.resolver? name
| .isTypeOf => type.isTypeOf?
| .resolveField => type.resolveField?
| .resolveType => type.resolveType?

/- There are hooks only at places that the type has. -/
theorem isOn_of_hook?
    {type : TypeDef}
    {place : HookPlace}
    {hook : Hook}
    (h : type.hook? place = some hook) :
    place.isOn type.kind = true := by
  cases place with
  | field name =>
      rcases NamedType.resolver?_eq_some_iff.1 h with
        ⟨shape, _, hShape, -⟩
      cases type <;> first | rfl | cases hShape
  | _ => cases type <;> first | rfl | cases h

end TypeDef

/- The hook that is given for a place. -/
def TypeHooks.hook? (hooks : TypeHooks) :
    HookPlace → Option Hook
| .field name => hooks.fields.get? name
| .isTypeOf => hooks.isTypeOf
| .resolveField => hooks.resolveField
| .resolveType => hooks.resolveType

------------------------------------------------------------
-- Resolver Maps
------------------------------------------------------------

namespace ResolverMap

variable {map : ResolverMap} {hooks : TypeHooks}

/- Each field is resolved as it is given for its name. -/
theorem get?_decorateFields
    (resolvers : Entries Hook)
    (fields : Entries OutputField)
    (name : String) :
    (decorateFields resolvers fields).get? name =
      (fields.get? name).map (resolvedField resolvers name) := by
  rw [decorateFields_eq]
  induction fields with
  | nil => rfl
  | cons entry rest ih =>
      rcases entry with ⟨key, field⟩
      by_cases hName : key = name
      · subst hName
        simp only [List.map_cons, Entries.get?, if_true,
          Option.map_some]
      · simp only [List.map_cons, Entries.get?, if_neg hName,
          ih]

/- A field of a decorated body has the resolver given for it. -/
theorem resolver_decorateShape
    {shape : FieldShape}
    {name : String}
    {hook : Hook}
    (hHook : hooks.fields.get? name = some hook)
    (hField : name ∈ shape.fields.names) :
    ∃ field,
      (decorateShape hooks shape).fields.get? name =
          some field ∧
        field.resolver = some hook := by
  have hContains :=
    (Entries.contains_iff_mem_names _ _).2 hField
  rcases Option.isSome_iff_exists.1 hContains with
    ⟨field, hField⟩
  refine ⟨resolvedField hooks.fields name field, ?_, ?_⟩
  · simp only [decorateShape, get?_decorateFields, hField,
      Option.map_some]
  · simp only [resolvedField, hHook, Option.some_or]

/-
  A decorated type has each hook that is given for a place of
  it. Fields have to be there.
-/
theorem hook?_decorate
    {type : TypeDef}
    {place : HookPlace}
    {hook : Hook}
    (hHooks : map.get? type.name = some hooks)
    (hHook : hooks.hook? place = some hook)
    (hPlace : place.isOn type.kind = true)
    (hField : ∀ name, place = .field name →
      name ∈ type.fields.names) :
    (map.decorate type).hook? place = some hook := by
  simp only [decorate, hHooks]
  cases place with
  | field name =>
      have hKnown := hField name rfl
      cases type with
      | object type =>
          rcases resolver_decorateShape hHook hKnown with
            ⟨field, hFound, hResolver⟩
          exact NamedType.resolver?_eq_some_iff.2
            ⟨_, field, rfl, hFound, hResolver⟩
      | interface type =>
          rcases resolver_decorateShape hHook hKnown with
            ⟨field, hFound, hResolver⟩
          exact NamedType.resolver?_eq_some_iff.2
            ⟨_, field, rfl, hFound, hResolver⟩
      | _ => cases hPlace
  | isTypeOf =>
      have hGiven : hooks.isTypeOf = some hook := hHook
      cases type with
      | object type =>
          simp only [TypeDef.hook?, TypeDef.isTypeOf?, hGiven,
            Option.some_or]
      | _ => cases hPlace
  | resolveField =>
      have hGiven : hooks.resolveField = some hook := hHook
      cases type with
      | object type =>
          simp only [TypeDef.hook?, TypeDef.resolveField?,
            decorateShape, hGiven, Option.some_or]
      | interface type =>
          simp only [TypeDef.hook?, TypeDef.resolveField?,
            decorateShape, hGiven, Option.some_or]
      | _ => cases hPlace
  | resolveType =>
      have hGiven : hooks.resolveType = some hook := hHook
      cases type with
      | interface type =>
          simp only [TypeDef.hook?, TypeDef.resolveType?, hGiven,
            Option.some_or]
      | union type =>
          simp only [TypeDef.hook?, TypeDef.resolveType?, hGiven,
            Option.some_or]
      | _ => cases hPlace

end ResolverMap

/- Expected fields of objects and interfaces are there. -/
theorem Protection.expected_of_check
    {expected : List String}
    {given kept : TypeDef}
    {name : String}
    (h : check expected given kept = .ok ())
    (hName : name ∈ expected)
    (hPlace : (HookPlace.field name).isOn given.kind = true) :
    name ∈ given.fields.names := by
  rcases body_of_check h with ⟨hKind, -, -, hBody⟩
  have hShape : ∀ {type : String} {isSdl : Bool}
      {shape shape' : FieldShape},
      checkShape type isSdl expected shape shape' = .ok () →
      name ∈ shape.fields.names := by
    intro type isSdl shape shape' hCheck
    simp only [checkShape, checkFields, Results.bind_eq_ok_iff,
      checkKnown_eq_ok_iff] at hCheck
    rcases hCheck with ⟨-, -, -, hKnown, -⟩
    exact hKnown name hName
  cases given with
  | object given =>
      cases kept <;> cases hKind
      exact hShape hBody
  | interface given =>
      cases kept <;> cases hKind
      exact hShape hBody
  | _ => cases hPlace

------------------------------------------------------------
-- Passes
------------------------------------------------------------

namespace Pass

variable {map : ResolverMap} {hooks : TypeHooks}

/- What is finished by a map is decorated by it. -/
theorem hook?_of_finished
    {entry : DraftEntry}
    {type : TypeDef}
    {place : HookPlace}
    {hook : Hook}
    (h : finished (some map.decorator) entry = .ok type)
    (hTouched : entry.touched = true)
    (hHooks : map.get? entry.type.name = some hooks)
    (hHook : hooks.hook? place = some hook) :
    type.hook? place = some hook ↔
      place.isOn type.kind = true := by
  refine ⟨TypeDef.isOn_of_hook?, fun hPlace => ?_⟩
  simp only [finished, hTouched, if_true] at h
  rcases Decorator.apply_eq_ok_iff.1 h with ⟨hCheck, rfl⟩
  rcases Protection.body_of_check hCheck with ⟨hKind, -⟩
  rw [hKind] at hPlace
  apply ResolverMap.hook?_decorate hHooks hHook hPlace
  rintro name rfl
  apply Protection.expected_of_check hCheck ?_ hPlace
  simp only [ResolverMap.decorator, ResolverMap.fieldNames,
    hHooks]
  exact (Entries.contains_iff_mem_names _ _).1
    (Option.isSome_iff_exists.2 ⟨hook, hHook⟩)

/- The types that a decorator expects are touched. -/
theorem touched_of_checkExpected
    {decorator : Decorator}
    {draft : Draft}
    {name : String}
    (h : checkExpected (some decorator) draft = .ok ())
    (hName : name ∈ decorator.types) :
    ∃ entry ∈ draft, entry.touched = true ∧
      entry.type.name = name := by
  have hEach := Results.forM_eq_ok_iff.1 h name hName
  split at hEach
  · next hTouched =>
      simpa [Draft.touchedNames, and_assoc] using hTouched
  · cases hEach

/-
  If a pass that builds or extends a schema succeeds with a
  resolver map, then it touched each type of the map, and each
  hook of the map is in effect, unless types of that kind have
  no place for it.
-/
theorem exists_installed_iff
    {base? : Option Schema}
    {pass : Pass}
    {schema : Schema}
    {name : String}
    (hSchema :
      (finishFrom base? pass (some map.decorator)).result =
        .ok schema)
    (hHooks : map.get? name = some hooks) :
    ∃ draft type, pass.settle = .ok draft ∧
      name ∈ draft.touchedNames ∧
      schema.lookup name = some (.defined type) ∧
      ∀ {place hook}, hooks.hook? place = some hook →
        (type.hook? place = some hook ↔
          place.isOn type.kind = true) := by
  have hBuild : pass.build (some map.decorator) = .ok schema :=
    (finishFrom_eq base? pass _).2.symm.trans hSchema
  rcases build_decorated_eq_ok_iff.1 hBuild with
    ⟨draft, graph, hDraft, hExpected, -⟩
  have hSettled : pass.settle = .ok draft :=
    (Draft.settle_eq pass).trans hDraft
  have hName : name ∈ map.names :=
    (Entries.contains_iff_mem_names map name).1
      (Option.isSome_iff_exists.2 ⟨hooks, hHooks⟩)
  rcases touched_of_checkExpected hExpected hName with
    ⟨entry, hEntry, hTouched, rfl⟩
  rcases Schema.exists_finished_of_build hSettled hBuild hEntry
    with ⟨type, hType, hLookup⟩
  refine ⟨draft, type, hSettled, ?_, hLookup, ?_⟩
  · exact List.mem_map_of_mem
      (List.mem_filter.2 ⟨hEntry, hTouched⟩)
  · intro place hook hHook
    exact hook?_of_finished hType hTouched hHooks hHook

end Pass

------------------------------------------------------------
-- A Catalogue
------------------------------------------------------------

namespace Catalogue

/- Hooks for items; values of an interface have no hook. -/
def itemHooks : ResolverMap :=
  ((ResolverMap.resolver [] "Item" "title" (.ofKey 1))
    |>.resolveType "Item" (.ofKey 2))
    |>.isTypeOf "Item" (.ofKey 3)

/- Two hooks of items are in effect, and one is left out. -/
theorem item_hooks :
    ∃ schema hooks type,
      (Pass.finishFrom none pass
        (some itemHooks.decorator)).result = .ok schema ∧
      itemHooks.get? "Item" = some hooks ∧
      schema.lookup "Item" = some (.defined type) ∧
      type.hook? (.field "title") = some (.ofKey 1) ∧
      type.hook? .resolveType = some (.ofKey 2) ∧
      type.hook? .isTypeOf ≠ some (.ofKey 3) := by
  have hKind :
      (pass.build (some itemHooks.decorator)).map
          (fun schema =>
            (schema.lookup "Item").map NamedType.kind) =
        .ok (some .interface) := by
    with_unfolding_all rfl
  cases hSchema : pass.build (some itemHooks.decorator) with
  | error error =>
      rw [hSchema] at hKind
      cases hKind
  | ok schema =>
      rw [hSchema] at hKind
      have hResult :
          (Pass.finishFrom none pass
            (some itemHooks.decorator)).result = .ok schema :=
        hSchema
      have hHooks : itemHooks.get? "Item" =
          some
            ⟨[("title", .ofKey 1)], some (.ofKey 3), none,
              some (.ofKey 2)⟩ := by
        with_unfolding_all rfl
      rcases Pass.exists_installed_iff hResult hHooks with
        ⟨_, type, -, -, hLookup, hInstalled⟩
      have hInterface : type.kind = .interface := by
        have hFound : (schema.lookup "Item").map NamedType.kind =
            some .interface :=
          Except.ok.inj hKind
        rw [hLookup] at hFound
        exact Option.some.inj hFound
      refine
        ⟨schema, _, type, hResult, hHooks, hLookup,
          (hInstalled rfl).2 ?_, (hInstalled rfl).2 ?_,
          fun hLeft => ?_⟩
      · rw [hInterface]
        rfl
      · rw [hInterface]
        rfl
      · have hPlace := (hInstalled rfl).1 hLeft
        rw [hInterface] at hPlace
        cases hPlace

end Catalogue

------------------------------------------------------------
-- Episodes
------------------------------------------------------------

/- An enum, and a resolver for a field that it cannot have. -/
namespace Episodes

open Catalogue in
def document : TypeSystemDocument :=
  [ .type
      ⟨position, none, "Query", [],
        .object [] [declared "episode" (.named "Episode")]⟩,
    .type
      ⟨position, none, "Episode", [],
        .enum [⟨position, none, "JEDI", []⟩]⟩]

def resolvers : ResolverMap :=
  ResolverMap.resolver [] "Episode" "number" (.ofKey 1)

/- The pass succeeds, and the resolver is nowhere. -/
theorem resolver_left_out :
    ∃ pass schema hooks,
      Pass.empty.load none document = .ok pass ∧
      (Pass.finishFrom none pass
        (some resolvers.decorator)).result = .ok schema ∧
      resolvers.get? "Episode" = some hooks ∧
      hooks.hook? (.field "number") = some (.ofKey 1) ∧
      schema.resolver? "Episode" "number" = none := by
  have hBuilt :
      (Pass.empty.load none document >>= fun pass =>
          (pass.build (some resolvers.decorator)).map fun schema =>
            schema.resolver? "Episode" "number") =
        .ok none := by
    with_unfolding_all rfl
  rcases Results.bind_eq_ok_iff.1 hBuilt with
    ⟨pass, hPass, hResolver⟩
  cases hSchema : pass.build (some resolvers.decorator) with
  | error error =>
      rw [hSchema] at hResolver
      cases hResolver
  | ok schema =>
      rw [hSchema] at hResolver
      exact
        ⟨pass, schema, _, hPass, hSchema, rfl, rfl,
          Except.ok.inj hResolver⟩

end Episodes

end GraphQL
