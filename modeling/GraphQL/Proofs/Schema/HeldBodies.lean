import GraphQL.Proofs.Deferred.LaterHandles
import GraphQL.Schema.Bodies
import GraphQL.Proofs.Schema.Touched

/-
  Bodies in a pass.

  A pass over types that hold their bodies is the pass over the
  types by themselves. Whatever it makes and reads, a type that
  it carries over refers to the cells that it had in the base,
  and the body of any other is in a cell that the base does not
  know.

  Key definitions include:
    * `BodyStore.Gives`, `BodyStore.Shares`
    * `HeldTypes.Sound`, `BodySource.Honest`
    * `HeldEntry.From`, `HeldType.From`
    * `HeldTypes.pass`

  Main declarations:
    * `HeldDraft.Sound.exists_define`
    * `HeldDraft.Sound.exists_extend`
    * `HeldDraft.exists_finish`
    * `HeldTypes.Sound.exists_pass`
-/

------------------------------------------------------------
-- Handles Of Bodies
------------------------------------------------------------

namespace GraphQL

open Deferred (Store)

namespace BodyStore

variable {store next last : BodyStore}
variable {handle? other? : Option Nat}
variable {body? : Option TypeBody}

/- A handle that reads as the body that there is. -/
def Gives (store : BodyStore) :
    Option Nat → Option TypeBody → Prop :=
  Option.Rel fun handle body =>
    (store.read handle).2 = some body

/- Two handles of one cell, or none. -/
def Shares (store : BodyStore) :
    Option Nat → Option Nat → Prop :=
  Option.Rel fun a b => store.same a b = true

/- A handle of a cell that a store does not have. -/
def IsNew (store next : BodyStore) (handle? : Option Nat) :
    Prop :=
  ∀ handle, handle? = some handle → store.IsLater next handle

/- What comes of an operation that answers with a handle. -/
structure Yields
    (store next : BodyStore)
    (handle? : Option Nat)
    (body? : Option TypeBody) : Prop where
  arises : next.Arises
  leads : store.LeadsTo next
  gives : next.Gives handle? body?

theorem Gives.of_leadsTo
    (h : store.Gives handle? body?)
    (hLeads : store.LeadsTo next) :
    next.Gives handle? body? := by
  cases h with
  | some hRead => exact .some (hLeads.reads _ _ hRead)
  | none => exact .none

theorem Shares.of_leadsTo
    (h : store.Shares handle? other?)
    (hLeads : store.LeadsTo next) :
    next.Shares handle? other? := by
  cases h with
  | some hSame => exact .some (hLeads.same hSame)
  | none => exact .none

theorem IsNew.of_leadsTo
    (h : store.IsNew next handle?)
    (hLeads : next.LeadsTo last) :
    store.IsNew last handle? :=
  fun handle hHandle => (h handle hHandle).of_leadsTo hLeads

/- A handle of a new cell. -/
theorem yields_hold
    (lazily : Bool)
    (hArises : store.Arises)
    (body? : Option TypeBody) :
    store.Yields (store.hold lazily body?).1
      (store.hold lazily body?).2 body? := by
  cases body? with
  | none => exact ⟨hArises, .refl _, .none⟩
  | some body =>
      have hMakes : store.Makes (store.hold lazily body).1
          body := by
        cases lazily with
        | false => exact hArises.ready body
        | true => exact hArises.produce body
      exact ⟨hMakes.arises, hMakes.leads, .some hMakes.reads⟩

/- A clone is another handle of the same cell. -/
theorem yields_clone
    (hArises : store.Arises)
    (hGives : store.Gives handle? body?) :
    store.Yields (store.clone handle?).1 (store.clone handle?).2
        body? ∧
      (store.clone handle?).1.Shares handle?
        (store.clone handle?).2 := by
  cases hGives with
  | none => exact ⟨⟨hArises, .refl _, .none⟩, .none⟩
  | some hRead =>
      rcases hArises.share hRead with ⟨hMakes, hSame⟩
      exact
        ⟨⟨hMakes.arises, hMakes.leads, .some hMakes.reads⟩,
          .some hSame⟩

/- What is made of a handle has a cell of its own. -/
theorem yields_derive
    (hArises : store.Arises)
    (hGives : store.Gives handle? body?) :
    store.Yields (store.derive handle?).1
        (store.derive handle?).2 body? ∧
      store.IsNew (store.derive handle?).1
        (store.derive handle?).2 := by
  cases hGives with
  | none =>
      refine ⟨⟨hArises, .refl _, .none⟩, ?_⟩
      intro handle hHandle
      cases hHandle
  | some hRead =>
      rcases hArises.map hRead id with ⟨hMakes, hLater⟩
      refine
        ⟨⟨hMakes.arises, hMakes.leads, .some hMakes.reads⟩, ?_⟩
      intro handle hHandle
      cases hHandle
      exact hLater

/- Reading a body changes none. -/
theorem look_keeps
    (hArises : store.Arises)
    (handle? : Option Nat) :
    (store.look handle?).Arises ∧
      store.LeadsTo (store.look handle?) := by
  cases handle? with
  | none => exact ⟨hArises, .refl _⟩
  | some handle => exact hArises.read handle

end BodyStore

------------------------------------------------------------
-- Types With Bodies
------------------------------------------------------------

/- A type whose handles both give its body. -/
structure HeldType.Holds
    (store : BodyStore)
    (held : HeldType) : Prop where
  config : store.Gives held.config held.type.body?
  own : store.Gives held.own held.type.body?

theorem HeldType.Holds.of_leadsTo
    {store next : BodyStore}
    {held : HeldType}
    (h : held.Holds store)
    (hLeads : store.LeadsTo next) : held.Holds next :=
  ⟨h.config.of_leadsTo hLeads, h.own.of_leadsTo hLeads⟩

/- Types that hold their bodies. -/
structure HeldTypes.Sound (held : HeldTypes) : Prop where
  arises : held.store.Arises
  holds : ∀ type ∈ held.types, type.Holds held.store

theorem HeldTypes.sound_ofTypes (types : List TypeDef) :
    (ofTypes types).Sound ∧ (ofTypes types).plain = types := by
  induction types with
  | nil => exact ⟨⟨.empty, List.forall_mem_nil _⟩, rfl⟩
  | cons type rest ih =>
      rcases ih with ⟨hSound, hPlain⟩
      have hConfig := BodyStore.yields_hold false hSound.arises
        type.body?
      have hOwn :=
        (BodyStore.yields_derive hConfig.arises hConfig.gives).1
      have hLeads := hConfig.leads.trans hOwn.leads
      refine ⟨⟨hOwn.arises, ?_⟩, ?_⟩
      · refine List.forall_mem_cons.2 ⟨⟨?_, hOwn.gives⟩, ?_⟩
        · exact hConfig.gives.of_leadsTo hOwn.leads
        · intro other hOther
          exact (hSound.holds other hOther).of_leadsTo hLeads
      · exact congrArg (type :: ·) hPlain

/- Handles that come from outside give what they are for. -/
structure BodySource.Honest (source : BodySource) : Prop where
  define : ∀ (store : BodyStore) type, store.Arises →
    store.Yields (source.define store type).1
      (source.define store type).2 type.body?
  decorate : ∀ (store : BodyStore) (type : TypeDef) handle?,
    store.Arises →
    store.Gives handle? type.body? →
    store.Yields (source.decorate store type handle?).1
      (source.decorate store type handle?).2
      (source.decorator.decorate type).body?

theorem BodySource.honest_ofDecorator (decorator : Decorator) :
    (ofDecorator decorator).Honest where
  define _ type hArises :=
    BodyStore.yields_hold false hArises type.body?
  decorate _ type _ hArises _ :=
    BodyStore.yields_hold true hArises
      (decorator.decorate type).body?

------------------------------------------------------------
-- Drafts With Bodies
------------------------------------------------------------

/-
  What is known of an entry of a draft: it is a type of the
  base with clones of its handles, or it was touched and has a
  config of its own.
-/
inductive HeldEntry.From
    (base : HeldTypes)
    (store : BodyStore) : HeldEntry → Prop where
  | carried {held : HeldType} {config own : Option Nat} :
      held ∈ base.types →
      HeldType.Holds store ⟨held.type, config, own⟩ →
      store.Shares held.config config →
      store.Shares held.own own →
      From base store ⟨⟨held.type, false⟩, config, own⟩
  | touched {type : TypeDef} {config : Option Nat} :
      store.Gives config type.body? →
      From base store ⟨⟨type, true⟩, config, none⟩

namespace HeldEntry.From

variable {base : HeldTypes} {store next : BodyStore}
variable {held : HeldEntry}

theorem of_leadsTo
    (h : held.From base store)
    (hLeads : store.LeadsTo next) : held.From base next := by
  cases h with
  | carried hMem hHolds hConfig hOwn =>
      exact
        .carried hMem (hHolds.of_leadsTo hLeads)
          (hConfig.of_leadsTo hLeads) (hOwn.of_leadsTo hLeads)
  | touched hGives => exact .touched (hGives.of_leadsTo hLeads)

theorem gives
    (h : held.From base store) :
    store.Gives held.config held.entry.type.body? := by
  cases h with
  | carried _ hHolds => exact hHolds.config
  | touched hGives => exact hGives

end HeldEntry.From

namespace HeldDraft

variable {base : HeldTypes} {draft : HeldDraft}
variable {store next : BodyStore} {plain : Draft}

/- A draft that comes from a base. -/
structure Sound (base : HeldTypes) (draft : HeldDraft) :
    Prop where
  arises : draft.store.Arises
  leads : base.store.LeadsTo draft.store
  entries : ∀ held ∈ draft.entries, held.From base draft.store

/- The types of a base, cloned one after the other. -/
theorem sound_ofTypes
    {types : List HeldType}
    (hArises : store.Arises)
    (hLeads : base.store.LeadsTo store)
    (hTypes : ∀ held ∈ types, held ∈ base.types)
    (hHolds : ∀ held ∈ types, held.Holds store) :
    (ofTypes store types).Sound base ∧
      store.LeadsTo (ofTypes store types).store ∧
      (ofTypes store types).plain =
        types.map fun held => ⟨held.type, false⟩ := by
  induction types generalizing store with
  | nil =>
      exact
        ⟨⟨hArises, hLeads, List.forall_mem_nil _⟩, .refl _, rfl⟩
  | cons held rest ih =>
      rcases List.forall_mem_cons.1 hTypes with ⟨hMem, hRest⟩
      rcases List.forall_mem_cons.1 hHolds with
        ⟨hFirst, hOthers⟩
      rcases BodyStore.yields_clone hArises hFirst.config with
        ⟨hConfig, hSame⟩
      have hOwnGives := hFirst.own.of_leadsTo hConfig.leads
      rcases BodyStore.yields_clone hConfig.arises hOwnGives with
        ⟨hOwn, hSameOwn⟩
      have hBoth := hConfig.leads.trans hOwn.leads
      rcases ih hOwn.arises (hLeads.trans hBoth) hRest
          (fun other hOther =>
            (hOthers other hOther).of_leadsTo hBoth) with
        ⟨hSound, hMore, hPlain⟩
      refine ⟨⟨hSound.arises, hSound.leads, ?_⟩,
        hBoth.trans hMore, ?_⟩
      · refine List.forall_mem_cons.2 ⟨?_, hSound.entries⟩
        have hLater := hOwn.leads.trans hMore
        exact
          .carried hMem
            ⟨hConfig.gives.of_leadsTo hLater,
              hOwn.gives.of_leadsTo hMore⟩
            (hSame.of_leadsTo hLater)
            (hSameOwn.of_leadsTo hMore)
      · exact congrArg (⟨held.type, false⟩ :: ·) hPlain

/- A definition is taken as it is by the draft by itself. -/
theorem Sound.exists_define
    {source : BodySource}
    {type : TypeDef}
    (h : draft.Sound base)
    (hSource : source.Honest)
    (hNext : draft.plain.define type = .ok plain) :
    ∃ next, draft.define source type = .ok next ∧
      next.plain = plain ∧ next.Sound base := by
  have hYields := hSource.define draft.store type h.arises
  refine ⟨_, Results.bind_eq_ok_iff.2 ⟨plain, hNext, rfl⟩,
    ?_, hYields.arises, h.leads.trans hYields.leads, ?_⟩
  · rcases Draft.define_eq_ok_iff.1 hNext with ⟨-, -, -, rfl⟩
    simp [HeldDraft.plain]
  · intro held hHeld
    rcases List.mem_append.1 hHeld with hOld | hNew
    · exact (h.entries held hOld).of_leadsTo hYields.leads
    · rw [List.mem_singleton.1 hNew]
      exact .touched hYields.gives

theorem plain_find? (draft : HeldDraft) (name : String) :
    draft.plain.find? name =
      (draft.find? name).map HeldEntry.entry := by
  simp only [Draft.find?, plain, find?, List.find?_map,
    Function.comp_def]

theorem plain_touch
    (draft : HeldDraft)
    (held : HeldEntry)
    (name : String)
    (type : TypeDef) :
    (draft.touch held name type).plain =
      draft.plain.replace name type := by
  simp only [plain, touch, replace, Draft.replace,
    List.map_map, Function.comp_def,
    apply_ite HeldEntry.entry]

theorem Sound.touch
    (h : draft.Sound base)
    (held : HeldEntry)
    (name : String)
    (type : TypeDef) :
    (draft.touch held name type).Sound base := by
  rcases BodyStore.look_keeps h.arises held.config with
    ⟨hArises, hLook⟩
  have hYields := BodyStore.yields_hold false hArises type.body?
  have hLeads := hLook.trans hYields.leads
  refine ⟨hYields.arises, h.leads.trans hLeads, ?_⟩
  intro other hOther
  rcases List.mem_map.1 hOther with ⟨old, hOld, hEither⟩
  split at hEither
  · rw [← hEither]
    exact .touched hYields.gives
  · rw [← hEither]
    exact (h.entries old hOld).of_leadsTo hLeads

/- An extension is taken as it is by the draft by itself. -/
theorem Sound.exists_extend
    {location : SourceLocation}
    {extension : TypeExtension}
    {plain? : Option Draft}
    (h : draft.Sound base)
    (hNext :
      draft.plain.extend? location extension = .ok plain?) :
    ∃ next?, draft.extend? location extension = .ok next? ∧
      next?.map HeldDraft.plain = plain? ∧
      ∀ next, next? = some next → next.Sound base := by
  cases plain? with
  | none =>
      rcases Draft.extend?_eq_none_iff.1 hNext with
        ⟨hBuiltin, hUnknown⟩
      rw [plain_find?, Option.map_eq_none_iff] at hUnknown
      refine ⟨none, ?_, rfl, ?_⟩
      · simp only [extend?, hBuiltin, hUnknown]
      · intro next hNone
        cases hNone
  | some plain =>
      rcases Draft.extend?_eq_some_iff.1 hNext with
        ⟨hBuiltin, entry, type, hEntry, hExtends, rfl⟩
      rw [plain_find?] at hEntry
      rcases Option.map_eq_some_iff.1 hEntry with
        ⟨held, hFound, rfl⟩
      refine
        ⟨some (draft.touch held extension.name type), ?_, ?_,
          ?_⟩
      · simp only [extend?, hBuiltin, hFound]
        have hType := TypeDef.extend_eq_ok_iff.2 hExtends
        exact Results.bind_eq_ok_iff.2 ⟨type, hType, rfl⟩
      · exact congrArg some (plain_touch _ _ _ _)
      · intro next hNext
        cases hNext
        exact h.touch held extension.name type

/- An extension that waited is applied. -/
theorem Sound.exists_settleOne
    {waiting : SourceLocation × TypeExtension}
    (h : draft.Sound base)
    (hNext : Pass.settleOne draft.plain waiting = .ok plain) :
    ∃ next, draft.settleOne waiting = .ok next ∧
      next.plain = plain ∧ next.Sound base := by
  rcases Results.bind_eq_ok_iff.1 hNext with
    ⟨found?, hFound, hPlain⟩
  rcases h.exists_extend hFound with
    ⟨next?, hExtend, rfl, hSound⟩
  cases next? with
  | none => cases hPlain
  | some next =>
      cases hPlain
      refine ⟨next, ?_, rfl, hSound next rfl⟩
      exact Results.bind_eq_ok_iff.2 ⟨_, hExtend, rfl⟩

theorem Sound.exists_settleAll
    {waiting : List (SourceLocation × TypeExtension)}
    (h : draft.Sound base)
    (hLast :
      waiting.foldlM Pass.settleOne draft.plain = .ok plain) :
    ∃ last, waiting.foldlM settleOne draft = .ok last ∧
      last.plain = plain ∧ last.Sound base := by
  apply Results.exists_foldlM_of_related _ _ hLast
  · intro item _ _ held next hHolds hNext
    rcases hHolds with ⟨rfl, hSound⟩
    exact hSound.exists_settleOne hNext
  · exact ⟨rfl, h⟩

end HeldDraft

------------------------------------------------------------
-- Finished Types
------------------------------------------------------------

/-
  What is known of a type at the end of a pass: it is a type of
  the base with clones of its handles, or it was touched and its
  own cell is new.
-/
inductive HeldType.From
    (base : HeldTypes)
    (store : BodyStore) : Bool → HeldType → Prop where
  | carried {held : HeldType} {config own : Option Nat} :
      held ∈ base.types →
      store.Shares held.config config →
      store.Shares held.own own →
      From base store false ⟨held.type, config, own⟩
  | made {held : HeldType} :
      base.store.IsNew store held.own →
      From base store true held

theorem HeldType.From.of_leadsTo
    {base : HeldTypes}
    {store next : BodyStore}
    {touched : Bool}
    {held : HeldType}
    (h : held.From base store touched)
    (hLeads : store.LeadsTo next) :
    held.From base next touched := by
  cases h with
  | carried hMem hConfig hOwn =>
      exact
        .carried hMem (hConfig.of_leadsTo hLeads)
          (hOwn.of_leadsTo hLeads)
  | made hNew => exact .made (hNew.of_leadsTo hLeads)

/- A type that an entry of a draft ends as. -/
structure HeldType.Ends
    (base : HeldTypes)
    (decorator : Decorator)
    (store : BodyStore)
    (entry : DraftEntry)
    (held : HeldType) : Prop where
  finished : Pass.finished (some decorator) entry = .ok held.type
  holds : held.Holds store
  origin : held.From base store entry.touched

section

variable {base : HeldTypes} {store next : BodyStore}
variable {entry : HeldEntry} {held : HeldType}
variable {type : TypeDef} {source : BodySource}

theorem HeldType.Ends.of_leadsTo
    {decorator : Decorator}
    {entry : DraftEntry}
    (h : held.Ends base decorator store entry)
    (hLeads : store.LeadsTo next) :
    held.Ends base decorator next entry :=
  ⟨h.finished, h.holds.of_leadsTo hLeads,
    h.origin.of_leadsTo hLeads⟩

/- A type that is decorated has a body of its own. -/
theorem HeldEntry.holds_decorate
    (hGives : store.Gives entry.config entry.entry.type.body?)
    (hSource : source.Honest)
    (hArises : store.Arises) :
    let last := entry.decorate source store
      (source.decorator.decorate entry.entry.type)
    last.1.Arises ∧ store.LeadsTo last.1 ∧
      last.2.Holds last.1 ∧ store.IsNew last.1 last.2.own := by
  have hClone := (BodyStore.yields_clone hArises hGives).1
  have hDecorated :=
    hSource.decorate _ _ _ hClone.arises hClone.gives
  rcases BodyStore.look_keeps hDecorated.arises entry.config with
    ⟨hRead, hGiven⟩
  rcases BodyStore.look_keeps hRead
      (source.decorate (store.clone entry.config).1
        entry.entry.type (store.clone entry.config).2).2 with
    ⟨hReadBoth, hAnswer⟩
  have hConfig :=
    (hDecorated.gives.of_leadsTo hGiven).of_leadsTo hAnswer
  have hBefore := hClone.leads.trans
    (hDecorated.leads.trans (hGiven.trans hAnswer))
  rcases BodyStore.yields_derive hReadBoth hConfig with
    ⟨hOwn, hNew⟩
  refine ⟨hOwn.arises, hBefore.trans hOwn.leads,
    ⟨hConfig.of_leadsTo hOwn.leads, hOwn.gives⟩, ?_⟩
  intro handle hHandle
  exact (hNew handle hHandle).of_leadsTo_left hBefore

/- An entry ends as it does without bodies. -/
theorem HeldEntry.From.exists_finish
    (h : entry.From base store)
    (hSource : source.Honest)
    (hArises : store.Arises)
    (hLeads : base.store.LeadsTo store)
    (hType :
      Pass.finished (some source.decorator) entry.entry =
        .ok type) :
    ∃ next held, entry.finish source store = .ok (next, held) ∧
      held.type = type ∧ next.Arises ∧ store.LeadsTo next ∧
      held.Ends base source.decorator next entry.entry := by
  have hGives := h.gives
  cases h with
  | carried hMem hHolds hConfig hOwn =>
      cases hType
      exact
        ⟨store, _, rfl, rfl, hArises, .refl _, rfl, hHolds,
          .carried hMem hConfig hOwn⟩
  | @touched given config hGiven =>
      rcases Decorator.apply_eq_ok_iff.1 hType with ⟨-, rfl⟩
      rcases HeldEntry.holds_decorate hGives hSource hArises with
        ⟨hLast, hMore, hHolds, hNew⟩
      refine
        ⟨_, _, Results.bind_eq_ok_iff.2 ⟨_, hType, rfl⟩, rfl,
          hLast, hMore, hType, hHolds, .made ?_⟩
      intro handle hHandle
      exact (hNew handle hHandle).of_leadsTo_left hLeads

/- The entries of a draft end as they do without bodies. -/
theorem HeldDraft.exists_finish
    {entries : List HeldEntry}
    {types : List TypeDef}
    (hSource : source.Honest)
    (hArises : store.Arises)
    (hLeads : base.store.LeadsTo store)
    (hEntries : ∀ entry ∈ entries, entry.From base store)
    (hTypes : List.Forall₂
      (fun entry type =>
        Pass.finished (some source.decorator) entry.entry =
          .ok type)
      entries types) :
    ∃ last, finish source store entries = .ok last ∧
      last.plain = types ∧ last.store.Arises ∧
      store.LeadsTo last.store ∧
      List.Forall₂
        (fun entry held =>
          held.Ends base source.decorator last.store entry.entry)
        entries last.types := by
  induction hTypes generalizing store with
  | nil => exact ⟨_, rfl, rfl, hArises, .refl _, .nil⟩
  | cons hType _ ih =>
      rcases List.forall_mem_cons.1 hEntries with
        ⟨hFirst, hRest⟩
      rcases hFirst.exists_finish hSource hArises hLeads hType
        with ⟨next, held, hHeld, rfl, hNext, hMore, hEnds⟩
      rcases ih hNext (hLeads.trans hMore)
          (fun other hOther =>
            (hRest other hOther).of_leadsTo hMore) with
        ⟨last, hLast, rfl, hLastArises, hLater, hOthers⟩
      refine
        ⟨⟨last.store, held :: last.types⟩, ?_, rfl,
          hLastArises, hMore.trans hLater,
          .cons (hEnds.of_leadsTo hLater) hOthers⟩
      refine Results.bind_eq_ok_iff.2 ⟨_, hHeld, ?_⟩
      exact Results.bind_eq_ok_iff.2 ⟨_, hLast, rfl⟩

/- Nor does it change any to read one after the other. -/
theorem HeldTypes.looks_keep
    (hArises : store.Arises)
    (types : List HeldType) :
    let last := types.foldl
      (fun store held => store.look held.own) store
    last.Arises ∧ store.LeadsTo last := by
  induction types generalizing store with
  | nil => exact ⟨hArises, .refl _⟩
  | cons held rest ih =>
      rcases BodyStore.look_keeps hArises held.own with
        ⟨hNext, hMore⟩
      rcases ih hNext with ⟨hLast, hLater⟩
      exact ⟨hLast, hMore.trans hLater⟩

/- Whatever validation reads, types hold their bodies. -/
theorem HeldTypes.Sound.lookAll
    {last : HeldTypes}
    (h : last.Sound) :
    last.lookAll.Sound ∧
      last.store.LeadsTo last.lookAll.store := by
  rcases HeldTypes.looks_keep h.arises last.types with
    ⟨hArises, hLeads⟩
  refine ⟨⟨hArises, ?_⟩, hLeads⟩
  exact fun held hHeld => (h.holds held hHeld).of_leadsTo hLeads

end

------------------------------------------------------------
-- Passes
------------------------------------------------------------

namespace HeldDraft

/- A draft with bodies, and what waits for its types. -/
abbrev Stage :=
  HeldDraft × List (SourceLocation × TypeExtension)

/- Take an item; an extension may have to wait. -/
def take (source : BodySource) (stage : Stage) :
    Pass.Item → Except BuildError Stage
| .defined type => do
    return (← stage.1.define source type, stage.2)
| .extended location extension => do
    match ← stage.1.extend? location extension with
    | some draft => return (draft, stage.2)
    | none =>
        return (stage.1, stage.2 ++ [(location, extension)])

/- A stage of a pass with bodies and one without. -/
structure Holds
    (base : HeldTypes)
    (stage : Draft.Stage)
    (held : Stage) : Prop where
  draft_eq : held.1.plain = stage.1
  waiting_eq : held.2 = stage.2
  sound : held.1.Sound base

/- An item is taken as it is without bodies. -/
theorem Holds.exists_take
    {base : HeldTypes}
    {source : BodySource}
    {stage next : Draft.Stage}
    {held : Stage}
    {item : Pass.Item}
    (hSource : source.Honest)
    (h : Holds base stage held)
    (hNext : item.take stage = .ok next) :
    ∃ next', take source held item = .ok next' ∧
      Holds base next next' := by
  rcases stage with ⟨draft, waiting⟩
  rcases held with ⟨held, waiting'⟩
  rcases h with ⟨rfl, rfl, hSound⟩
  cases item with
  | defined type =>
      rcases Results.bind_eq_ok_iff.1 hNext with
        ⟨plain, hPlain, hStage⟩
      cases hStage
      rcases hSound.exists_define hSource hPlain with
        ⟨next, hDefine, rfl, hSound⟩
      exact
        ⟨(next, waiting'),
          Results.bind_eq_ok_iff.2 ⟨next, hDefine, rfl⟩,
          rfl, rfl, hSound⟩
  | extended location extension =>
      rcases Results.bind_eq_ok_iff.1 hNext with
        ⟨plain?, hPlain, hStage⟩
      rcases hSound.exists_extend hPlain with
        ⟨next?, hExtend, rfl, hSounds⟩
      cases next? with
      | some next =>
          cases hStage
          exact
            ⟨(next, waiting'),
              Results.bind_eq_ok_iff.2 ⟨_, hExtend, rfl⟩,
              rfl, rfl, hSounds next rfl⟩
      | none =>
          cases hStage
          exact
            ⟨(held, waiting' ++ [(location, extension)]),
              Results.bind_eq_ok_iff.2 ⟨_, hExtend, rfl⟩,
              rfl, rfl, hSound⟩

end HeldDraft

/-
  What a pass over items makes of the types of a base: they are
  cloned, the items are taken, the extensions that wait are
  applied, and the types are decorated and checked.
-/
def HeldTypes.pass
    (base : HeldTypes)
    (source : BodySource)
    (items : List Pass.Item) : Except BuildError HeldTypes := do
  let (draft, waiting) ← items.foldlM (HeldDraft.take source)
    (.ofTypes base.store base.types, [])
  let settling :=
    (Pass.empty.atStage ([], waiting) []).settlingList
  let draft ← settling.foldlM HeldDraft.settleOne draft
  let last ←
    HeldDraft.finish source draft.store draft.entries
  return last.lookAll

/- A pass with bodies ends as it does without. -/
theorem HeldTypes.Sound.exists_pass
    {base : HeldTypes}
    {source : BodySource}
    {items : List Pass.Item}
    {stage : Draft.Stage}
    {draft : Draft}
    {types : List TypeDef}
    (h : base.Sound)
    (hSource : source.Honest)
    (hStage :
      items.foldlM Pass.Item.take
          (base.plain.map fun type => ⟨type, false⟩, []) =
        .ok stage)
    (hDraft : Draft.settleKinds stage = .ok draft)
    (hTypes : List.Forall₂
      (fun entry type =>
        Pass.finished (some source.decorator) entry = .ok type)
      draft types) :
    ∃ last, base.pass source items = .ok last ∧
      last.plain = types ∧ last.Sound ∧
      base.store.LeadsTo last.store ∧
      List.Forall₂
        (HeldType.Ends base source.decorator last.store)
        draft last.types := by
  rcases @HeldDraft.sound_ofTypes base base.store base.types
      h.arises (.refl _) (fun _ hMem => hMem) h.holds with
    ⟨hStart, -, hPlain⟩
  have hStarts : HeldDraft.Holds base
      (base.plain.map fun type => ⟨type, false⟩, [])
      (.ofTypes base.store base.types, []) := by
    refine ⟨?_, rfl, hStart⟩
    rw [hPlain, plain, List.map_map]
    rfl
  rcases Results.exists_foldlM_of_related
      (fun item _ stage held next hHolds hNext =>
        hHolds.exists_take hSource hNext) hStarts hStage with
    ⟨⟨held, waiting⟩, hTaken, hHolds⟩
  rcases stage with ⟨plain, waiting'⟩
  rcases hHolds with ⟨rfl, rfl, hSound⟩
  rcases hSound.exists_settleAll hDraft with
    ⟨settled, hSettled, rfl, hSound⟩
  rw [HeldDraft.plain, List.forall₂_map_left_iff] at hTypes
  rcases HeldDraft.exists_finish hSource hSound.arises
      hSound.leads hSound.entries hTypes with
    ⟨last, hLast, rfl, hArises, hLeads, hEnds⟩
  have hHolds : last.Sound := by
    refine ⟨hArises, fun held hHeld => ?_⟩
    rcases Results.exists_of_forall₂_of_mem hEnds hHeld with
      ⟨entry, -, hEntry⟩
    exact hEntry.holds
  rcases hHolds.lookAll with ⟨hLooked, hLater⟩
  refine ⟨last.lookAll, ?_, rfl, hLooked,
    (hSound.leads.trans hLeads).trans hLater, ?_⟩
  · refine Results.bind_eq_ok_iff.2 ⟨_, hTaken, ?_⟩
    refine Results.bind_eq_ok_iff.2 ⟨_, hSettled, ?_⟩
    exact Results.bind_eq_ok_iff.2 ⟨_, hLast, rfl⟩
  · rw [HeldDraft.plain, List.forall₂_map_left_iff]
    exact hEnds.imp fun _ _ hEntry => hEntry.of_leadsTo hLater

end GraphQL
