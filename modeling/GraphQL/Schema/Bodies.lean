import GraphQL.Deferred
import GraphQL.Schema.Build

/-
  Types as they hold their bodies.

  The fields or values of a type are computed when they are
  first needed. A type holds two handles for them: that of its
  config, and its own, whose cell reads the cell of the config.
  Types of a base are carried over with their handles, and what
  a pass touches is given cells of its own.

  Key definitions include:
    * `TypeBody`, `TypeDef.body?`
    * `HeldType`, `HeldTypes`, `HeldDraft`
    * `HeldDraft.define`, `HeldDraft.extend?`
    * `HeldDraft.finish`, `HeldTypes.lookAll`
-/

------------------------------------------------------------
-- Bodies
------------------------------------------------------------

namespace GraphQL

open Deferred (Store)

/- What is computed of a type when it is first needed. -/
inductive TypeBody where
  | fields (fields : Entries OutputField)
  | inputFields (fields : Entries InputValue)
  | values (values : List EnumValue)
  deriving Inhabited

/- The body of a type; unions and scalars have none. -/
def TypeDef.body? : TypeDef → Option TypeBody
| object type => some (.fields type.shape.fields)
| interface type => some (.fields type.shape.fields)
| enum type => some (.values type.values)
| inputObject type => some (.inputFields type.fields)
| union _ => none
| scalar _ => none

/- The cells of bodies, and the handles that refer to them. -/
abbrev BodyStore := Store TypeBody

namespace BodyStore

/- Make a handle of what there is, if there is something. -/
def make {α : Type}
    (step : BodyStore → α → BodyStore)
    (store : BodyStore)
    (source? : Option α) : BodyStore × Option Nat :=
  match source? with
  | some source =>
      (step store source, some store.handles.length)
  | none => (store, none)

/- A handle to a new cell, whose value may be left for later. -/
def hold (lazily : Bool) :
    BodyStore → Option TypeBody → BodyStore × Option Nat :=
  make (if lazily then Store.produce else Store.ready)

/- Another handle to the same cell. -/
def clone : BodyStore → Option Nat → BodyStore × Option Nat :=
  make Store.share

/- A handle to a new cell that reads the cell of a handle. -/
def derive : BodyStore → Option Nat → BodyStore × Option Nat :=
  make fun store handle => store.map handle id

/- Read a handle. -/
def look (store : BodyStore) (handle? : Option Nat) :
    BodyStore :=
  match handle? with
  | some handle => (store.read handle).1
  | none => store

end BodyStore

------------------------------------------------------------
-- Types
------------------------------------------------------------

/- A type, with the handle of its config and its own. -/
structure HeldType where
  type : TypeDef
  config : Option Nat
  own : Option Nat
  deriving Inhabited

/- Types that hold their bodies in a store. -/
structure HeldTypes where
  store : BodyStore
  types : List HeldType

/- The types by themselves. -/
def HeldTypes.plain (held : HeldTypes) : List TypeDef :=
  held.types.map HeldType.type

/- Types whose bodies are all at hand. -/
def HeldTypes.ofTypes : List TypeDef → HeldTypes
| [] => ⟨.empty, []⟩
| type :: rest =>
    let others := ofTypes rest
    let (store, config) := others.store.hold false type.body?
    let (store, own) := store.derive config
    ⟨store, ⟨type, config, own⟩ :: others.types⟩

/-
  A decorator with what is done to bodies outside of a pass. A
  type that is defined comes with a handle. The decorator is
  handed a type with a handle, and answers with the handle for
  the type that it returns.
-/
structure BodySource where
  decorator : Decorator
  define : BodyStore → TypeDef → BodyStore × Option Nat
  decorate :
    BodyStore → TypeDef → Option Nat → BodyStore × Option Nat

/-
  Definitions whose bodies are at hand, and a decorator that
  makes all bodies anew when they are needed.
-/
def BodySource.ofDecorator (decorator : Decorator) :
    BodySource where
  decorator := decorator
  define store type := store.hold false type.body?
  decorate store type _ :=
    store.hold true (decorator.decorate type).body?

------------------------------------------------------------
-- Drafts
------------------------------------------------------------

/-
  An entry of a draft with the handle of its config. The handle
  of the type itself is given up when the type is touched.
-/
structure HeldEntry where
  entry : DraftEntry
  config : Option Nat
  own : Option Nat
  deriving Inhabited

/- A draft whose entries hold their bodies in a store. -/
structure HeldDraft where
  store : BodyStore
  entries : List HeldEntry

namespace HeldDraft

/- The draft by itself. -/
def plain (draft : HeldDraft) : Draft :=
  draft.entries.map HeldEntry.entry

/- The types of a base, cloned. -/
def ofTypes (store : BodyStore) : List HeldType → HeldDraft
| [] => ⟨store, []⟩
| held :: rest =>
    let (store, config) := store.clone held.config
    let (store, own) := store.clone held.own
    let others := ofTypes store rest
    ⟨others.store,
      ⟨⟨held.type, false⟩, config, own⟩ :: others.entries⟩

/- Add a type, with the handle that it comes with. -/
def define
    (source : BodySource)
    (draft : HeldDraft)
    (type : TypeDef) : Except BuildError HeldDraft := do
  let _ ← draft.plain.define type
  let (store, config) := source.define draft.store type
  return ⟨store,
    draft.entries ++ [⟨⟨type, true⟩, config, none⟩]⟩

/- The entry of a name. -/
def find? (draft : HeldDraft) (name : String) :
    Option HeldEntry :=
  draft.entries.find? fun held => held.entry.type.name == name

/- Put an entry in the place of the one of a name. -/
def replace
    (draft : HeldDraft)
    (store : BodyStore)
    (name : String)
    (held : HeldEntry) : HeldDraft where
  store := store
  entries := draft.entries.map fun other =>
    if other.entry.type.name = name then held else other

/-
  Touch the type of an entry. The body that it had is read, and
  the one that it has now is at hand.
-/
def touch
    (draft : HeldDraft)
    (held : HeldEntry)
    (name : String)
    (type : TypeDef) : HeldDraft :=
  let (store, config) :=
    (draft.store.look held.config).hold false type.body?
  draft.replace store name ⟨⟨type, true⟩, config, none⟩

/- Extend a type, if the draft has one of that name. -/
def extend?
    (draft : HeldDraft)
    (location : SourceLocation)
    (extension : TypeExtension) :
    Except BuildError (Option HeldDraft) :=
  let name := extension.name
  match BuiltinScalar.ofName? name with
  | some scalar =>
      .error (.extensionOfOtherKind name scalar.kind location)
  | none =>
      match draft.find? name with
      | none => .ok none
      | some held => do
          let type ← held.entry.type.extend location extension
          return some (draft.touch held name type)

/- Apply an extension that waited; now its type has to exist. -/
def settleOne
    (draft : HeldDraft)
    (waiting : SourceLocation × TypeExtension) :
    Except BuildError HeldDraft := do
  match ← draft.extend? waiting.1 waiting.2 with
  | some draft => return draft
  | none =>
      throw (.extensionOfUndefined waiting.2.name waiting.1)

end HeldDraft

------------------------------------------------------------
-- Finished Types
------------------------------------------------------------

/-
  The bodies of a type that is decorated. The decorator is
  handed a clone, the check of what it answers reads both
  bodies, and the type is made from the config.
-/
def HeldEntry.decorate
    (source : BodySource)
    (store : BodyStore)
    (held : HeldEntry)
    (type : TypeDef) : BodyStore × HeldType :=
  let (store, handed) := store.clone held.config
  let (store, config) :=
    source.decorate store held.entry.type handed
  let store := (store.look held.config).look config
  let (store, own) := store.derive config
  (store, ⟨type, config, own⟩)

/- The type of an entry; if untouched, what the base has. -/
def HeldEntry.finish
    (source : BodySource)
    (store : BodyStore)
    (held : HeldEntry) :
    Except BuildError (BodyStore × HeldType) :=
  if held.entry.touched then do
    let type ← source.decorator.apply held.entry.type
    return held.decorate source store type
  else
    return (store, ⟨held.entry.type, held.config, held.own⟩)

/- The types of a draft in turn. -/
def HeldDraft.finish (source : BodySource) :
    BodyStore → List HeldEntry → Except BuildError HeldTypes
| store, [] => return ⟨store, []⟩
| store, held :: rest => do
    let (store, type) ← held.finish source store
    let others ← finish source store rest
    return ⟨others.store, type :: others.types⟩

/- The graph as a whole is checked, which reads all bodies. -/
def HeldTypes.lookAll (held : HeldTypes) : HeldTypes where
  store := held.types.foldl
    (fun store type => store.look type.own) held.store
  types := held.types

end GraphQL
