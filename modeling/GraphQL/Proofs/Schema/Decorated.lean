import GraphQL.Proofs.Schema.HeldBodies

/-
  What a pass decorates.

  A type that a pass touches is handed to the decorator once,
  with everything that was added to it. All other types are
  carried over as they are, and share their bodies with the
  base: what the one schema has computed is not computed again
  in the other.

  Key definitions include:
    * `Pass.Fate`, `Pass.DecoratesTouched`
    * `Pass.SharesBodies`

  Main declarations:
    * `Pass.of_materialize`
    * `Pass.shares_bodies`
    * `Pass.decorates_touched`
-/

------------------------------------------------------------
-- Decorators
------------------------------------------------------------

namespace GraphQL

namespace Pass

variable {decorator? : Option Decorator}

/- What is handed over, and the types that are registered. -/
theorem of_materialize
    {graph last : TypeGraph}
    {draft : Draft}
    {handed : List TypeDef}
    (h : materialize decorator? graph draft =
      (handed, .ok last)) :
    ∃ fates : List (List TypeDef × TypeDef),
      List.Forall₂
          (fun entry fate =>
            fate.1 = handedOver decorator? entry ∧
              finished decorator? entry = .ok fate.2)
          draft fates ∧
        handed = fates.flatMap Prod.fst ∧
        last.types = graph.types ++
          fates.map fun fate => .defined fate.2 := by
  induction draft generalizing graph handed with
  | nil =>
      cases h
      exact ⟨[], .nil, rfl, by simp⟩
  | cons entry rest ih =>
      simp only [materialize] at h
      split at h
      · next graph' hResult =>
          rcases Results.bind_eq_ok_iff.1 hResult with
            ⟨type, hType, hRegister⟩
          rcases TypeGraph.register_eq_ok_iff.1 hRegister with
            ⟨-, -, hFree, rfl⟩
          cases hRest :
            materialize decorator? (graph.add _ hFree) rest with
          | mk later result =>
              rw [hRest] at h
              cases h
              rcases ih hRest with
                ⟨fates, hFates, rfl, hTypes⟩
              refine
                ⟨(handedOver decorator? entry, type) :: fates,
                  .cons ⟨rfl, hType⟩ hFates, rfl, ?_⟩
              rw [hTypes]
              simp [TypeGraph.add]
      · cases h

/- A pass that ends with a schema has materialized its types. -/
theorem exists_materialize
    {pass : Pass}
    {schema : Schema}
    (h : (pass.finish decorator?).result = .ok schema) :
    ∃ draft, Draft.settleKinds pass.stage = .ok draft ∧
      materialize decorator? .builtin draft =
        ((pass.finish decorator?).handed, .ok schema.types) := by
  rcases build_decorated_eq_ok_iff.1 h with
    ⟨draft, graph, hDraft, hExpected, hGraph, hAssemble⟩
  rcases assemble_eq_ok_iff.1 hAssemble with ⟨rfl, -⟩
  refine ⟨draft, hDraft, ?_⟩
  rw [← materialize_eq] at hGraph
  simp only [finish, Draft.settle_eq, hDraft, hExpected]
  split
  · next handed error hError =>
      rw [hError] at hGraph
      cases hGraph
  · next handed graph hOk =>
      rw [hOk] at hGraph
      cases hGraph
      exact hOk

/-
  What becomes of a type that a base has or a pass defines, and
  what the decorator is handed of it.
-/
inductive Fate
    (decorator : Decorator)
    (base : List TypeDef)
    (items : List Item)
    (source : TypeDef) : List TypeDef × TypeDef → Prop where
  | carried :
      touches items source.name = false →
      Fate decorator base items source ([], source)
  | decorated {merged last : TypeDef} :
      touches items source.name = true →
      source.extendAll
          (extensions (history base items) source.name) =
        .ok merged →
      decorator.apply merged = .ok last →
      Fate decorator base items source ([merged], last)

theorem Fate.eq_of_untouched
    {decorator : Decorator}
    {base : List TypeDef}
    {items : List Item}
    {source : TypeDef}
    {fate : List TypeDef × TypeDef}
    (h : Fate decorator base items source fate)
    (hUntouched : touches items source.name = false) :
    fate.2 = source := by
  cases h with
  | carried _ => rfl
  | decorated hTouched =>
      rw [hUntouched] at hTouched
      cases hTouched

/-
  A decorator is handed exactly the types that are touched,
  each once and with all that was added to it, and the types of
  the schema are those that it returns and those of the base.
-/
structure DecoratesTouched
    (decorator : Decorator)
    (base : List TypeDef)
    (items : List Item)
    (handed : List TypeDef)
    (types : List NamedType)
    (fates : List (List TypeDef × TypeDef)) : Prop where
  fates_of_sources : List.Forall₂ (Fate decorator base items)
    (sources base items) fates
  handed_eq : handed = fates.flatMap Prod.fst
  types_eq : types = TypeGraph.builtin.types ++
    fates.map fun fate => .defined fate.2
  once : ∀ name, (handed.map TypeDef.name).count name =
    if touches items name then 1 else 0

/- The sources that are touched are handed over in order. -/
theorem names_of_fates
    {decorator : Decorator}
    {base types : List TypeDef}
    {items : List Item}
    {fates : List (List TypeDef × TypeDef)}
    (h : List.Forall₂ (Fate decorator base items) types fates) :
    (fates.flatMap Prod.fst).map TypeDef.name =
      (types.map TypeDef.name).filter (touches items) := by
  induction h with
  | nil => rfl
  | cons hFirst _ ih =>
      rw [List.map_cons, List.filter_cons, List.flatMap_cons,
        List.map_append, ih]
      cases hFirst with
      | carried hUntouched => simp [hUntouched]
      | decorated hTouched hMerged _ =>
          simp [hTouched, (TypeDef.of_extendAll hMerged).2.1]

/- An entry is finished as its source was extended. -/
theorem fate_of_follows
    {decorator : Decorator}
    {base : List TypeDef}
    {items : List Item}
    {source last : TypeDef}
    {entry : DraftEntry}
    (h : entry.Follows (extensions (history base items))
      (touches items) source)
    (hLast : finished (some decorator) entry = .ok last) :
    Fate decorator base items source
      (handedOver (some decorator) entry, last) := by
  rcases h with ⟨hType, hTouched⟩
  cases hEntry : entry.touched with
  | false =>
      rw [hEntry] at hTouched
      rw [extensions_of_untouched hTouched.symm] at hType
      simp only [finished, hEntry] at hLast
      cases hLast
      cases hType
      simp only [handedOver, hEntry]
      exact .carried hTouched.symm
  | true =>
      simp only [finished, hEntry] at hLast
      simp only [handedOver, hEntry]
      exact .decorated (hTouched.symm.trans hEntry) hType hLast

------------------------------------------------------------
-- Bodies
------------------------------------------------------------

/-
  What becomes of the bodies of a base. Types that are carried
  over refer to the cells that they had, and the types that the
  pass touched refer to cells that nothing in the base does.
-/
structure SharesBodies
    (items : List Item)
    (base last : HeldTypes) : Prop where
  sound : last.Sound
  leads : base.store.LeadsTo last.store
  carried : ∀ held ∈ base.types,
    touches items held.type.name = false →
    ∃ kept ∈ last.types, kept.type = held.type ∧
      last.store.Shares held.config kept.config ∧
      last.store.Shares held.own kept.own
  fresh : ∀ held ∈ last.types,
    touches items held.type.name = true →
    ∀ own, held.own = some own →
    ∀ handle < base.store.handles.length,
      last.store.same handle own = false

/- A type at the end of a pass, and what it was at first. -/
structure Traces
    (items : List Item)
    (base : HeldTypes)
    (store : BodyStore)
    (source : TypeDef)
    (held : HeldType) : Prop where
  name_eq : held.type.name = source.name
  type_eq : touches items source.name = false →
    held.type = source
  origin : held.From base store (touches items source.name)

theorem traces_of_follows
    {items : List Item}
    {base : HeldTypes}
    {decorator : Decorator}
    {store : BodyStore}
    {source : TypeDef}
    {entry : DraftEntry}
    {held : HeldType}
    (h : entry.Follows (extensions (history base.plain items))
      (touches items) source)
    (hEnds : held.Ends base decorator store entry) :
    Traces items base store source held := by
  refine ⟨?_, ?_, ?_⟩
  · exact (name_of_finished hEnds.finished).trans h.name_eq
  · exact (fate_of_follows h hEnds.finished).eq_of_untouched
  · rw [← h.touched_eq]
    exact hEnds.origin

/- Types of a base that are not touched keep their bodies. -/
theorem shares_bodies
    {items : List Item}
    {base last : HeldTypes}
    {decorator : Decorator}
    {draft : Draft}
    (hBase : base.Sound)
    (hDistinct : (base.plain.map TypeDef.name).Nodup)
    (hFollows : Draft.Follows
      (extensions (history base.plain items)) (touches items)
      (sources base.plain items) draft)
    (hSound : last.Sound)
    (hLeads : base.store.LeadsTo last.store)
    (hEnds : List.Forall₂
      (HeldType.Ends base decorator last.store) draft
      last.types) :
    SharesBodies items base last := by
  have hTraces : List.Forall₂ (Traces items base last.store)
      (sources base.plain items) last.types :=
    Results.forall₂_comp hFollows hEnds
      fun _ _ _ => traces_of_follows
  refine ⟨hSound, hLeads, ?_, ?_⟩
  · intro held hHeld hUntouched
    have hSource : held.type ∈ sources base.plain items :=
      List.mem_append_left _ (List.mem_map_of_mem hHeld)
    rcases Results.exists_of_forall₂_of_mem hTraces.flip
        hSource with ⟨kept, hKept, hTrace⟩
    have hType := hTrace.type_eq hUntouched
    have hOrigin := hTrace.origin
    rw [hUntouched] at hOrigin
    cases hOrigin with
    | @carried other config own hOther hConfig hOwn =>
        -- The name tells which type of the base it was.
        rw [HeldTypes.plain, List.map_map] at hDistinct
        have hSame : other = held :=
          List.inj_on_of_nodup_map hDistinct hOther hHeld
            (congrArg TypeDef.name hType)
        rw [hSame] at hConfig hOwn
        exact ⟨_, hKept, hType, hConfig, hOwn⟩
  · intro held hHeld hTouched own hOwn handle hHandle
    rcases Results.exists_of_forall₂_of_mem hTraces hHeld with
      ⟨source, -, hTrace⟩
    have hOrigin := hTrace.origin
    rw [← hTrace.name_eq, hTouched] at hOrigin
    cases hOrigin with
    | made hNew =>
        exact
          (hNew own hOwn).not_same hBase.arises hLeads hHandle

/-
  A pass decorates exactly the types that it touches, whatever
  the order of their definitions and extensions. All others are
  carried over, and share their bodies with the base, whichever
  bodies there are and whatever the decorator does with them.
-/
theorem decorates_touched
    {base? : Option Schema}
    {items : List Item}
    {pass : Pass}
    {decorator : Decorator}
    {schema : Schema}
    (hPass : (fromBase base?).Takes items pass)
    (hSchema :
      (finishFrom base? pass (some decorator)).result =
        .ok schema) :
    ∃ fates,
      DecoratesTouched decorator (baseTypes base?) items
          (finishFrom base? pass (some decorator)).handed
          schema.types.types fates ∧
        ∀ (base : HeldTypes) (source : BodySource),
          base.Sound → base.plain = baseTypes base? →
          source.Honest → source.decorator = decorator →
          ∃ last, base.pass source items = .ok last ∧
            last.plain = fates.map Prod.snd ∧
            SharesBodies items base last := by
  rcases finishFrom_eq base? pass (some decorator) with
    ⟨hHandedOver, hResult⟩
  rw [hResult] at hSchema
  rw [hHandedOver]
  rcases exists_materialize hSchema with
    ⟨draft, hDraft, hMaterialize⟩
  rcases of_materialize hMaterialize with
    ⟨fates, hFates, hHanded, hTypes⟩
  have hTaken := hPass.takeAll
  have hTracks := (tracks_fromBase base?).takeAll hTaken
  rw [List.nil_append] at hTracks
  have hFollows := hTracks.follows_of_settleKinds hDraft
  have hSources : List.Forall₂
      (Fate decorator (baseTypes base?) items)
      (sources (baseTypes base?) items) fates := by
    refine Results.forall₂_comp hFollows hFates ?_
    rintro source entry ⟨handed, last⟩ hEntry ⟨rfl, hLast⟩
    exact fate_of_follows hEntry hLast
  refine
    ⟨fates, ⟨hSources, hHanded, hTypes, fun name => ?_⟩, ?_⟩
  · rw [hHanded, names_of_fates hSources]
    have hNodup : ((sources (baseTypes base?) items).map
        TypeDef.name).Nodup := by
      rw [← hTracks.entries.names_eq]
      exact hTracks.distinct
    cases hTouched : touches items name with
    | false =>
        refine List.count_eq_zero.2 fun hMem => ?_
        simp [hTouched] at hMem
    | true =>
        rw [List.count_filter hTouched]
        exact List.count_eq_one_of_mem hNodup
          (hTracks.mem_of_touches hDraft hTouched)
  · rintro base source hBase hPlain hSource rfl
    have hStart : (base.plain.map fun type => ⟨type, false⟩, []) =
        (fromBase base?).stage := by
      rw [hPlain, ← draft_fromBase]
      cases base? <;> rfl
    rw [← hStart] at hTaken
    have hFinished : List.Forall₂
        (fun entry type =>
          finished (some source.decorator) entry = .ok type)
        draft (fates.map Prod.snd) := by
      rw [List.forall₂_map_right_iff]
      exact hFates.imp fun _ _ hFate => hFate.2
    rcases hBase.exists_pass hSource hTaken hDraft hFinished with
      ⟨last, hLast, hTypes, hSound, hLeads, hEnds⟩
    have hDistinct := nodup_baseTypes base?
    rw [← hPlain] at hFollows hDistinct
    exact
      ⟨last, hLast, hTypes,
        shares_bodies hBase hDistinct hFollows hSound hLeads
          hEnds⟩

end Pass

------------------------------------------------------------
-- A Catalogue
------------------------------------------------------------

namespace Catalogue

/- The types of the catalogue, with their bodies. -/
def stock : HeldTypes :=
  .ofTypes (Pass.baseTypes (some schema))

/- What the supplement defines and extends. -/
def supplied : List Pass.Item :=
  supplement.filterMap (Pass.Item.ofDefinition? none)

/-
  Books are extended, and numbers and films are new. The films
  are extended before they are defined. Items are carried over
  with the cell of their fields.
-/
theorem supplement_decorated :
    ∃ pass extended fates last,
      (Pass.fromBase (some schema)).Takes supplied pass ∧
        (Pass.finishFrom (some schema) pass
          (some filmResolvers)).result = .ok extended ∧
        (Pass.finishFrom (some schema) pass
          (some filmResolvers)).handed.map TypeDef.name =
            ["Book", "Isbn", "Film"] ∧
        Pass.DecoratesTouched filmResolvers
          (Pass.baseTypes (some schema)) supplied
          (Pass.finishFrom (some schema) pass
            (some filmResolvers)).handed
          extended.types.types fates ∧
        stock.pass (.ofDecorator filmResolvers) supplied =
          .ok last ∧
        last.plain = fates.map Prod.snd ∧
        Pass.SharesBodies supplied stock last ∧
        ∃ kept ∈ last.types, kept.type = .interface item ∧
          last.store.Shares (some 5) kept.own := by
  have hSeen : (do
      let pass ←
        (Pass.fromBase (some schema)).load none supplement
      let outcome := Pass.finishFrom (some schema) pass
        (some filmResolvers)
      let extended ← outcome.result
      return (outcome.handed.map TypeDef.name)) =
        .ok ["Book", "Isbn", "Film"] := by
    with_unfolding_all rfl
  rcases Results.bind_eq_ok_iff.1 hSeen with
    ⟨pass, hPass, hFinish⟩
  rcases Results.bind_eq_ok_iff.1 hFinish with
    ⟨extended, hResult, hNames⟩
  have hTakes : (Pass.fromBase (some schema)).Takes supplied
      pass :=
    .load .start hPass
  rcases HeldTypes.sound_ofTypes
      (Pass.baseTypes (some schema)) with ⟨hSound, hPlain⟩
  rcases Pass.decorates_touched hTakes hResult with
    ⟨fates, hFates, hBodies⟩
  rcases hBodies stock (.ofDecorator filmResolvers) hSound
      hPlain (BodySource.honest_ofDecorator _) rfl with
    ⟨last, hLast, hTypes, hShares⟩
  have hItem : ⟨.interface item, some 4, some 5⟩ ∈ stock.types :=
    List.mem_cons_self
  have hUntouched : Pass.touches supplied "Item" = false := by
    with_unfolding_all rfl
  rcases hShares.carried _ hItem hUntouched with
    ⟨kept, hKept, hType, -, hOwn⟩
  exact
    ⟨pass, extended, fates, last, hTakes, hResult,
      Except.ok.inj hNames, hFates, hLast, hTypes, hShares,
      kept, hKept, hType, hOwn⟩

end Catalogue

end GraphQL
