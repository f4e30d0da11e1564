import GraphQL.Schema.Pass
import GraphQL.Proofs.Schema.Additions

/-
  The order in which a draft is defined and extended.

  Extensions of a draft may be applied in any order, and may
  wait until all types are defined.

  Key definitions include:
    * `Draft.Applies`: what an extension makes of a draft
    * `Draft.Stage`: a draft and the extensions that wait
    * `Draft.Taken`: what a definition makes of a stage

  Main declarations:
    * `Draft.takeStage_eq_ok_iff`
    * `Draft.same_settleAll_of_perm`
    * `Draft.same_takeStage_settleStage`
-/

------------------------------------------------------------
-- Drafts
------------------------------------------------------------

namespace GraphQL

namespace Draft

variable {draft draft' next last : Draft}

/- A name has an entry exactly if some entry bears it. -/
theorem find?_eq_none_iff (draft : Draft) (name : String) :
    draft.find? name = none ↔
      ∀ entry ∈ draft, entry.type.name ≠ name := by
  simp [find?]

theorem name_of_find?
    {name : String}
    {entry : DraftEntry}
    (h : draft.find? name = some entry) :
    entry.type.name = name := by
  have hName := List.find?_some h
  simpa using hName

theorem find?_cons
    (entry : DraftEntry)
    (draft : Draft)
    (name : String) :
    find? (entry :: draft) name =
      if entry.type.name = name then
        some entry
      else
        draft.find? name := by
  by_cases hName : entry.type.name = name <;>
    simp [find?, hName]

theorem replace_cons
    (entry : DraftEntry)
    (draft : Draft)
    (name : String)
    (type : TypeDef) :
    replace (entry :: draft) name type =
      (if entry.type.name = name then ⟨type, true⟩ else entry) ::
        draft.replace name type :=
  rfl

/- A type that takes the place of another one is found there. -/
theorem find?_replace_self
    {name : String}
    {entry : DraftEntry}
    {type : TypeDef}
    (hType : type.name = name)
    (h : draft.find? name = some entry) :
    (draft.replace name type).find? name =
      some ⟨type, true⟩ := by
  induction draft with
  | nil => cases h
  | cons first rest ih =>
      rw [find?_cons] at h
      rw [replace_cons, find?_cons]
      by_cases hFirst : first.type.name = name
      · simp [hFirst, hType]
      · rw [if_neg hFirst] at h
        simp [hFirst, ih h]

/- Other names are not affected. -/
theorem find?_replace_of_ne
    {name other : String}
    {type : TypeDef}
    (hType : type.name = name)
    (hOther : other ≠ name) :
    (draft.replace name type).find? other =
      draft.find? other := by
  induction draft with
  | nil => rfl
  | cons first rest ih =>
      rw [replace_cons, find?_cons, find?_cons, ih]
      by_cases hFirst : first.type.name = name
      · simp [hFirst, hType, hOther.symm]
      · simp [hFirst]

/- The last type that takes a place keeps it. -/
theorem replace_replace
    {name : String}
    {type type' : TypeDef}
    (hType : type.name = name) :
    (draft.replace name type).replace name type' =
      draft.replace name type' := by
  simp only [replace, List.map_map]
  apply List.map_congr_left
  intro entry hEntry
  by_cases hName : entry.type.name = name
  · simp [hName, hType]
  · simp [hName]

/- Different places are taken independently. -/
theorem replace_comm
    {name name' : String}
    {type type' : TypeDef}
    (hType : type.name = name)
    (hType' : type'.name = name')
    (hNe : name ≠ name') :
    (draft.replace name type).replace name' type' =
      (draft.replace name' type').replace name type := by
  simp only [replace, List.map_map]
  apply List.map_congr_left
  intro entry hEntry
  by_cases hName : entry.type.name = name
  · have hOther : entry.type.name ≠ name' := by
      rw [hName]
      exact hNe
    simp [hName, hType, hNe]
  · by_cases hName' : entry.type.name = name'
    · simp [hName', hType', hNe.symm]
    · simp [hName, hName']

/- What is found of a name in drafts that are alike is alike. -/
theorem Alike.find?
    (h : draft.Alike draft')
    (name : String) :
    Option.Rel
      (fun entry entry' => entry.type.Alike entry'.type)
      (draft.find? name) (draft'.find? name) :=
  rel_find?_of_forall₂ (fun _ _ hTypes => hTypes.name_eq) h name

/- Types that are related may take the place of a name. -/
theorem rel_replace_of_forall₂
    {Related : TypeDef → TypeDef → Prop}
    (hNames : ∀ type type', Related type type' →
      type.name = type'.name)
    {name : String}
    {type type' : TypeDef}
    (h : List.Forall₂
      (fun entry entry' => Related entry.type entry'.type)
      draft draft')
    (hType : Related type type') :
    List.Forall₂
      (fun entry entry' => Related entry.type entry'.type)
      (draft.replace name type) (draft'.replace name type') := by
  unfold Draft.replace
  rw [List.forall₂_map_left_iff, List.forall₂_map_right_iff]
  apply h.imp
  intro entry entry' hEntry
  have hName := hNames _ _ hEntry
  by_cases hSame : entry.type.name = name
  · simpa [hSame, ← hName] using hType
  · simpa [hSame, ← hName] using hEntry

theorem Alike.replace
    {name : String}
    {type type' : TypeDef}
    (h : draft.Alike draft')
    (hType : type.Alike type') :
    (draft.replace name type).Alike
      (draft'.replace name type') :=
  rel_replace_of_forall₂ (fun _ _ hTypes => hTypes.name_eq)
    h hType

------------------------------------------------------------
-- Extensions
------------------------------------------------------------

/- What an extension makes of a draft that has its type. -/
structure Applies
    (waiting : SourceLocation × TypeExtension)
    (draft next : Draft) : Prop where
  notBuiltin : BuiltinScalar.ofName? waiting.2.name = none
  exists_type : ∃ entry type,
    draft.find? waiting.2.name = some entry ∧
      entry.type.Extends waiting.1 waiting.2 type ∧
      next = draft.replace waiting.2.name type

/- An extension is applied exactly if the draft has its type. -/
theorem extend?_eq_some_iff
    {location : SourceLocation}
    {extension : TypeExtension} :
    draft.extend? location extension = .ok (some next) ↔
      Applies (location, extension) draft next := by
  unfold extend?
  simp only
  constructor
  · intro h
    split at h
    · cases h
    · next hBuiltin =>
        split at h
        · cases h
        · next entry hEntry =>
            rcases Results.bind_eq_ok_iff.1 h with
              ⟨type, hType, hNext⟩
            cases hNext
            exact ⟨hBuiltin, entry, type, hEntry,
              TypeDef.extend_eq_ok_iff.1 hType, rfl⟩
  · intro hParts
    rcases hParts with
      ⟨hBuiltin, entry, type, hEntry, hType, rfl⟩
    simp only [hBuiltin, hEntry]
    have hExtend := TypeDef.extend_eq_ok_iff.2 hType
    exact Results.bind_eq_ok_iff.2 ⟨type, hExtend, rfl⟩

/- An extension waits exactly if the draft has no such type. -/
theorem extend?_eq_none_iff
    {location : SourceLocation}
    {extension : TypeExtension} :
    draft.extend? location extension = .ok none ↔
      BuiltinScalar.ofName? extension.name = none ∧
        draft.find? extension.name = none := by
  unfold extend?
  simp only
  constructor
  · intro h
    split at h
    · cases h
    · next hBuiltin =>
        split at h
        · next hNone => exact ⟨hBuiltin, hNone⟩
        · rcases Results.bind_eq_ok_iff.1 h with ⟨_, -, hNext⟩
          cases hNext
  · intro hParts
    rcases hParts with ⟨hBuiltin, hNone⟩
    simp only [hBuiltin, hNone]

/- An extension that waited is applied if its type exists. -/
theorem settleOne_eq_ok_iff
    {waiting : SourceLocation × TypeExtension} :
    Pass.settleOne draft waiting = .ok next ↔
      Applies waiting draft next := by
  unfold Pass.settleOne
  rw [Results.bind_eq_ok_iff]
  constructor
  · intro hParts
    rcases hParts with ⟨found?, hFound, hNext⟩
    cases found? with
    | none => cases hNext
    | some found =>
        cases hNext
        exact extend?_eq_some_iff.1 hFound
  · intro h
    exact ⟨some next, extend?_eq_some_iff.2 h, rfl⟩

namespace Applies

variable {waiting waiting' : SourceLocation × TypeExtension}

/- An extension adds to a type of its name. -/
theorem name_eq
    {entry : DraftEntry}
    {type : TypeDef}
    (hEntry : draft.find? waiting.2.name = some entry)
    (hType : entry.type.Extends waiting.1 waiting.2 type) :
    type.name = waiting.2.name :=
  hType.kept.2.1.trans (name_of_find? hEntry)

/- Extensions leave the names of a draft as they are. -/
theorem map_name_eq (h : Applies waiting draft next) :
    next.map (fun entry => entry.type.name) =
      draft.map fun entry => entry.type.name := by
  rcases h with ⟨-, entry, type, hEntry, hType, rfl⟩
  have hName := name_eq hEntry hType
  unfold replace
  rw [List.map_map]
  apply List.map_congr_left
  intro other _
  by_cases hSame : other.type.name = waiting.2.name <;>
    simp [hSame, hName]

/-
  What all entries of a draft have, all entries of the extended
  draft have, if extended types have it.
-/
theorem forall_mem
    {Property : DraftEntry → Prop}
    (h : Applies waiting draft next)
    (hDraft : ∀ entry ∈ draft, Property entry)
    (hExtended : ∀ entry ∈ draft, ∀ type,
      entry.type.name = waiting.2.name →
      entry.type.Extends waiting.1 waiting.2 type →
      Property ⟨type, true⟩) :
    ∀ entry ∈ next, Property entry := by
  rcases h with ⟨-, found, type, hFound, hType, rfl⟩
  have hNew : Property ⟨type, true⟩ :=
    hExtended found (List.mem_of_find?_eq_some hFound) type
      (name_of_find? hFound) hType
  intro entry hEntry
  rcases List.mem_map.1 hEntry with ⟨other, hOther, rfl⟩
  split
  · exact hNew
  · exact hDraft other hOther

/- A type that is found is found again, as it is or extended. -/
theorem exists_find?
    {name : String}
    {entry : DraftEntry}
    (h : Applies waiting draft next)
    (hEntry : draft.find? name = some entry) :
    ∃ entry', next.find? name = some entry' ∧
      (entry' = entry ∨
        entry.type.Extends waiting.1 waiting.2 entry'.type) := by
  rcases h with ⟨-, found, type, hFound, hType, rfl⟩
  have hName := name_eq hFound hType
  by_cases hSame : name = waiting.2.name
  · subst hSame
    rw [hFound] at hEntry
    cases hEntry
    exact ⟨_, find?_replace_self hName hFound, .inr hType⟩
  · rw [find?_replace_of_ne hName hSame]
    exact ⟨entry, hEntry, .inl rfl⟩

/-
  A draft whose type of the name is alike is extended as well,
  and the types that take the place are alike.
-/
theorem exists_alike
    (h : Applies waiting draft next)
    (hFound : Option.Rel
      (fun entry entry' => entry.type.Alike entry'.type)
      (draft.find? waiting.2.name)
      (draft'.find? waiting.2.name)) :
    ∃ type type',
      next = draft.replace waiting.2.name type ∧
        Applies waiting draft'
          (draft'.replace waiting.2.name type') ∧
        type.name = waiting.2.name ∧
        type.Alike type' := by
  rcases h with ⟨hBuiltin, entry, type, hEntry, hType, rfl⟩
  rw [hEntry] at hFound
  cases hFound' : draft'.find? waiting.2.name with
  | none =>
      rw [hFound'] at hFound
      cases hFound
  | some entry' =>
      rw [hFound'] at hFound
      cases hFound with
      | some hEntries =>
          rcases hType.congr hEntries with
            ⟨type', hType', hTypes⟩
          exact
            ⟨type, type', rfl,
              ⟨hBuiltin, entry', type', hFound', hType', rfl⟩,
              name_eq hEntry hType, hTypes⟩

/- Drafts that are alike are extended alike. -/
theorem congr
    (h : Applies waiting draft next)
    (hAlike : draft.Alike draft') :
    ∃ next', Applies waiting draft' next' ∧
      next.Alike next' := by
  rcases h.exists_alike (hAlike.find? waiting.2.name) with
    ⟨type, type', rfl, hNext', -, hTypes⟩
  exact ⟨_, hNext', hAlike.replace hTypes⟩

/- Two extensions may be applied in either order. -/
theorem swap
    (hFirst : Applies waiting draft next)
    (hLater : Applies waiting' next last) :
    ∃ next' last',
      Applies waiting' draft next' ∧
        Applies waiting next' last' ∧
        last.Alike last' := by
  rcases hFirst with ⟨hBuiltin, entry, type, hEntry, hType, rfl⟩
  rcases hLater with
    ⟨hBuiltin', entry', type', hEntry', hType', rfl⟩
  have hName := name_eq hEntry hType
  have hName' := name_eq hEntry' hType'
  by_cases hSame : waiting.2.name = waiting'.2.name
  · -- Both extend one type, so the extensions are swapped there.
    rw [← hSame] at hEntry' hBuiltin' hName' ⊢
    rw [find?_replace_self hName hEntry] at hEntry'
    cases hEntry'
    rcases hType.swap hType' with
      ⟨other, final, hOther, hFinal, hAlike⟩
    have hOtherName : other.name = waiting.2.name :=
      hOther.kept.2.1.trans (name_of_find? hEntry)
    refine
      ⟨draft.replace waiting.2.name other,
        draft.replace waiting.2.name final,
        ⟨hSame ▸ hBuiltin, entry, other, hSame ▸ hEntry, hOther,
          by rw [hSame]⟩,
        ⟨hBuiltin, ⟨other, true⟩, final,
          find?_replace_self hOtherName hEntry, hFinal,
          (replace_replace hOtherName).symm⟩, ?_⟩
    rw [replace_replace hName]
    exact (alike_equivalence.refl draft).replace hAlike
  · -- They extend different types.
    have hNe : waiting'.2.name ≠ waiting.2.name :=
      fun h => hSame h.symm
    rw [find?_replace_of_ne hName hNe] at hEntry'
    refine
      ⟨draft.replace waiting'.2.name type', _,
        ⟨hBuiltin', entry', type', hEntry', hType', rfl⟩,
        ⟨hBuiltin, entry, type, ?_, hType, rfl⟩, ?_⟩
    · rw [find?_replace_of_ne hName' hSame]
      exact hEntry
    · rw [replace_comm hName hName' hSame]
      exact alike_equivalence.refl _

end Applies

/- An extension does not change which names have types. -/
theorem Applies.find?_eq_none_iff
    {waiting : SourceLocation × TypeExtension}
    (h : Applies waiting draft next)
    (name : String) :
    next.find? name = none ↔ draft.find? name = none := by
  rcases h with ⟨hBuiltin, entry, type, hEntry, hType, rfl⟩
  have hName := name_eq hEntry hType
  by_cases hSame : name = waiting.2.name
  · rw [hSame, find?_replace_self hName hEntry, hEntry]
    simp
  · rw [find?_replace_of_ne hName hSame]

/- Extensions that are applied extend types that exist. -/
theorem known_of_settleAll
    {waiting : List (SourceLocation × TypeExtension)}
    (h : waiting.foldlM Pass.settleOne draft = .ok last) :
    ∀ extension ∈ waiting,
      BuiltinScalar.ofName? extension.2.name = none ∧
        draft.find? extension.2.name ≠ none := by
  induction waiting generalizing draft with
  | nil => simp
  | cons first rest ih =>
      rw [List.foldlM_cons] at h
      rcases Results.bind_eq_ok_iff.1 h with
        ⟨next, hNext, hLast⟩
      have hApplies := settleOne_eq_ok_iff.1 hNext
      intro extension hExtension
      rcases List.mem_cons.1 hExtension with rfl | hRest
      · rcases hApplies.exists_type with ⟨entry, type, hEntry, -⟩
        exact ⟨hApplies.notBuiltin, by simp [hEntry]⟩
      · rcases ih hLast extension hRest with
          ⟨hBuiltin, hKnown⟩
        refine ⟨hBuiltin, ?_⟩
        rwa [Ne, ← hApplies.find?_eq_none_iff]

/- Drafts that are alike are extended alike. -/
theorem same_settleOne
    (draft draft' : Draft)
    (waiting : SourceLocation × TypeExtension)
    (h : draft.Alike draft') :
    Results.Same Draft.Alike (Pass.settleOne draft waiting)
      (Pass.settleOne draft' waiting) := by
  refine .of_symmetric Draft.Alike
    (fun draft => Pass.settleOne draft waiting)
    alike_equivalence (fun _ _ => alike_equivalence.symm) ?_ h
  intro draft draft' next hAlike hNext
  rcases (settleOne_eq_ok_iff.1 hNext).congr hAlike with
    ⟨next', hNext', hLike⟩
  exact ⟨next', settleOne_eq_ok_iff.2 hNext', hLike⟩

/- Two extensions may come in either order. -/
theorem same_settleOne_comm
    (draft : Draft)
    (waiting waiting' : SourceLocation × TypeExtension) :
    Results.Same Draft.Alike
      (Pass.settleOne draft waiting >>= fun draft =>
        Pass.settleOne draft waiting')
      (Pass.settleOne draft waiting' >>= fun draft =>
        Pass.settleOne draft waiting) := by
  apply Results.Same.of_symmetric
    (fun pair pair' => pair' = pair.swap)
    (fun pair : (SourceLocation × TypeExtension) ×
        (SourceLocation × TypeExtension) =>
      Pass.settleOne draft pair.1 >>= fun draft =>
        Pass.settleOne draft pair.2)
    alike_equivalence
    (c := (waiting, waiting')) (d := (waiting', waiting))
  · rintro pair _ rfl
    exact pair.swap_swap.symm
  · rintro pair _ last rfl hLast
    rcases Results.bind_eq_ok_iff.1 hLast with
      ⟨next, hNext, hLater⟩
    rcases (settleOne_eq_ok_iff.1 hNext).swap
        (settleOne_eq_ok_iff.1 hLater) with
      ⟨next', last', hNext', hLast', hAlike⟩
    refine ⟨last', ?_, hAlike⟩
    exact Results.bind_eq_ok_iff.2
      ⟨next', settleOne_eq_ok_iff.2 hNext',
        settleOne_eq_ok_iff.2 hLast'⟩
  · rfl

/- Extensions may be applied in any order. -/
theorem same_settleAll_of_perm
    {waiting waiting' : List (SourceLocation × TypeExtension)}
    (hPerm : waiting.Perm waiting')
    (h : draft.Alike draft') :
    Results.Same Draft.Alike
      (waiting.foldlM Pass.settleOne draft)
      (waiting'.foldlM Pass.settleOne draft') :=
  Results.same_foldlM_of_perm alike_equivalence same_settleOne
    same_settleOne_comm hPerm h

------------------------------------------------------------
-- Definitions
------------------------------------------------------------

/- A type is defined under a name that is free. -/
theorem define_eq_ok_iff {type : TypeDef} :
    draft.define type = .ok next ↔
      Name.isReserved type.name = false ∧
        BuiltinScalar.ofName? type.name = none ∧
        draft.find? type.name = none ∧
        next = draft ++ [⟨type, true⟩] := by
  unfold define
  simp only
  cases hReserved : Name.isReserved type.name with
  | true => simp
  | false =>
      cases hBuiltin : BuiltinScalar.ofName? type.name with
      | some scalar => simp
      | none =>
          cases hFound : draft.find? type.name with
          | some entry => simp
          | none => simp [eq_comm]

/- All entries have what the others and the new one have. -/
theorem forall_mem_of_define
    {Property : DraftEntry → Prop}
    {type : TypeDef}
    (h : draft.define type = .ok next)
    (hDraft : ∀ entry ∈ draft, Property entry)
    (hType : Property ⟨type, true⟩) :
    ∀ entry ∈ next, Property entry := by
  rcases define_eq_ok_iff.1 h with ⟨-, -, -, rfl⟩
  intro entry hEntry
  rcases List.mem_append.1 hEntry with hBefore | hNew
  · exact hDraft entry hBefore
  · rw [List.mem_singleton.1 hNew]
    exact hType

theorem find?_append
    (draft : Draft)
    (entry : DraftEntry)
    (name : String) :
    find? (draft ++ [entry]) name =
      (draft.find? name).or
        (if entry.type.name = name then some entry else none) := by
  by_cases hName : entry.type.name = name <;>
    simp [find?, hName]

theorem replace_append_of_ne
    {entry : DraftEntry}
    {name : String}
    {type : TypeDef}
    (h : entry.type.name ≠ name) :
    replace (draft ++ [entry]) name type =
      draft.replace name type ++ [entry] := by
  simp [replace, h]

/-
  A type may be defined before or after an extension of a type
  that the draft has.
-/
theorem define_settleOne_comm
    {waiting : SourceLocation × TypeExtension}
    {type : TypeDef}
    (hKnown : draft.find? waiting.2.name ≠ none) :
    (Pass.settleOne draft waiting >>= fun draft =>
        draft.define type) = .ok last ↔
      (draft.define type >>= fun draft =>
        Pass.settleOne draft waiting) = .ok last := by
  simp only [Results.bind_eq_ok_iff, settleOne_eq_ok_iff,
    define_eq_ok_iff]
  constructor
  · intro hParts
    rcases hParts with
      ⟨_, ⟨hBuiltin, entry, added, hEntry, hAdded, rfl⟩,
       hReserved, hScalar, hFree, rfl⟩
    have hName := Applies.name_eq hEntry hAdded
    have hNe : type.name ≠ waiting.2.name := by
      intro hSame
      rw [hSame, find?_replace_self hName hEntry] at hFree
      cases hFree
    rw [find?_replace_of_ne hName hNe] at hFree
    refine
      ⟨_, ⟨hReserved, hScalar, hFree, rfl⟩, hBuiltin, entry,
        added, ?_, hAdded, ?_⟩
    · rw [find?_append, hEntry]
      rfl
    · exact (replace_append_of_ne hNe).symm
  · intro hParts
    rcases hParts with
      ⟨_, ⟨hReserved, hScalar, hFree, rfl⟩,
       hBuiltin, entry, added, hEntry, hAdded, rfl⟩
    have hNe : type.name ≠ waiting.2.name := by
      intro hSame
      rw [hSame] at hFree
      exact hKnown hFree
    rw [find?_append, if_neg hNe, Option.or_none] at hEntry
    have hName := Applies.name_eq hEntry hAdded
    refine
      ⟨_, ⟨hBuiltin, entry, added, hEntry, hAdded, rfl⟩,
        hReserved, hScalar, ?_, ?_⟩
    · rw [find?_replace_of_ne hName hNe]
      exact hFree
    · exact replace_append_of_ne hNe

/- Types are defined alike in drafts that are alike. -/
theorem same_define
    {type : TypeDef}
    (h : draft.Alike draft') :
    Results.Same Draft.Alike (draft.define type)
      (draft'.define type) := by
  refine .of_symmetric Draft.Alike
    (fun draft => draft.define type)
    alike_equivalence (fun _ _ => alike_equivalence.symm) ?_ h
  intro draft draft' next hAlike hNext
  rcases define_eq_ok_iff.1 hNext with
    ⟨hReserved, hBuiltin, hFree, rfl⟩
  have hFound := hAlike.find? type.name
  rw [hFree] at hFound
  cases hFree' : draft'.find? type.name with
  | some entry =>
      rw [hFree'] at hFound
      cases hFound
  | none =>
      refine
        ⟨_, define_eq_ok_iff.2
          ⟨hReserved, hBuiltin, hFree', rfl⟩, ?_⟩
      exact List.rel_append hAlike (.cons (.refl type) .nil)

------------------------------------------------------------
-- Documents
------------------------------------------------------------

/- A draft, and the extensions that wait for their types. -/
abbrev Stage :=
  Draft × List (SourceLocation × TypeExtension)

/- Take what a definition of a document says about types. -/
def takeStage (file : Option String) (stage : Stage) :
    TypeSystemDefinition → Except BuildError Stage
| .type definition => do
    let location :=
      SourceLocation.ofSchema file definition.position
    let type ← TypeDef.ofDefinition location definition
    return (← stage.1.define type, stage.2)
| .extension extension => do
    let location :=
      SourceLocation.ofSchema file extension.position
    match ← stage.1.extend? location extension with
    | some draft => return (draft, stage.2)
    | none =>
        return (stage.1, stage.2 ++ [(location, extension)])
| _ => return stage

/-
  What taking a definition of a document makes of a stage: a
  type is defined, an extension is applied or waits, and all
  else leaves the stage alone.
-/
inductive Taken (file : Option String) (stage : Stage) :
    TypeSystemDefinition → Stage → Prop where
  | type {definition : TypeDefinition}
      {type : TypeDef} {draft : Draft} :
      TypeDef.ofDefinition (.ofSchema file definition.position)
        definition = .ok type →
      stage.1.define type = .ok draft →
      Taken file stage (.type definition) (draft, stage.2)
  | applied {extension : TypeExtension} {draft : Draft} :
      Applies (.ofSchema file extension.position, extension)
        stage.1 draft →
      Taken file stage (.extension extension) (draft, stage.2)
  | waits {extension : TypeExtension} :
      BuiltinScalar.ofName? extension.name = none →
      stage.1.find? extension.name = none →
      Taken file stage (.extension extension)
        (stage.1, stage.2 ++
          [(.ofSchema file extension.position, extension)])
  | schema {block : SchemaBlock} :
      Taken file stage (.schema block) stage
  | directive {definition : DirectiveDefinition} :
      Taken file stage (.directive definition) stage

/- A definition is taken exactly in these ways. -/
theorem takeStage_eq_ok_iff
    {file : Option String}
    {stage stage' : Stage}
    {definition : TypeSystemDefinition} :
    takeStage file stage definition = .ok stage' ↔
      Taken file stage definition stage' := by
  constructor
  · intro h
    cases definition with
    | type definition =>
        simp only [takeStage, Results.bind_eq_ok_iff] at h
        rcases h with ⟨type, hType, draft, hDraft, hStage⟩
        cases hStage
        exact .type hType hDraft
    | extension extension =>
        simp only [takeStage, Results.bind_eq_ok_iff] at h
        rcases h with ⟨found?, hFound, hStage⟩
        cases found? with
        | none =>
            cases hStage
            rcases extend?_eq_none_iff.1 hFound with
              ⟨hBuiltin, hUnknown⟩
            exact .waits hBuiltin hUnknown
        | some draft =>
            cases hStage
            exact .applied (extend?_eq_some_iff.1 hFound)
    | schema block =>
        cases h
        exact .schema
    | directive definition =>
        cases h
        exact .directive
  · intro h
    cases h with
    | type hType hDraft =>
        simp only [takeStage, Results.bind_eq_ok_iff]
        exact ⟨_, hType, _, hDraft, rfl⟩
    | applied hApplies =>
        simp only [takeStage, Results.bind_eq_ok_iff]
        exact ⟨_, extend?_eq_some_iff.2 hApplies, rfl⟩
    | waits hBuiltin hUnknown =>
        simp only [takeStage, Results.bind_eq_ok_iff]
        exact
          ⟨none, extend?_eq_none_iff.2 ⟨hBuiltin, hUnknown⟩, rfl⟩
    | schema => rfl
    | directive => rfl

/- Apply all extensions that wait. -/
def settleStage (stage : Stage) : Except BuildError Draft :=
  stage.2.foldlM Pass.settleOne stage.1

/- Take a type that a document defines. -/
def takeType (file : Option String) (draft : Draft) :
    TypeSystemDefinition → Except BuildError Draft
| .type definition => do
    let location :=
      SourceLocation.ofSchema file definition.position
    draft.define (← TypeDef.ofDefinition location definition)
| _ => return draft

/- An extension of a document with its location. -/
def extension? (file : Option String) :
    TypeSystemDefinition →
      Option (SourceLocation × TypeExtension)
| .extension extension =>
    some (.ofSchema file extension.position, extension)
| _ => none

variable {file : Option String}

/- Types that a draft has stay when types are taken. -/
theorem find?_takeType
    {definition : TypeSystemDefinition}
    {name : String}
    (h : takeType file draft definition = .ok next)
    (hKnown : draft.find? name ≠ none) :
    next.find? name ≠ none := by
  unfold takeType at h
  split at h
  · rcases Results.bind_eq_ok_iff.1 h with ⟨type, -, hNext⟩
    rcases define_eq_ok_iff.1 hNext with ⟨-, -, -, rfl⟩
    rw [find?_append]
    intro hNone
    exact hKnown (Option.or_eq_none_iff.1 hNone).1
  · cases h
    exact hKnown

/-
  Types may be taken before or after an extension of a type
  that the draft has.
-/
theorem same_takeTypes_settleOne
    (document : TypeSystemDocument)
    (draft : Draft)
    (waiting : SourceLocation × TypeExtension)
    (hKnown : draft.find? waiting.2.name ≠ none) :
    Results.Same Eq
      (Pass.settleOne draft waiting >>= fun draft =>
        document.foldlM (takeType file) draft)
      (document.foldlM (takeType file) draft >>= fun draft =>
        Pass.settleOne draft waiting) := by
  induction document generalizing draft with
  | nil =>
      simp only [List.foldlM_nil, bind_pure, pure_bind]
      exact .refl (fun _ => rfl) _
  | cons definition rest ih =>
      simp only [List.foldlM_cons, bind_assoc]
      have hOne : Results.Same Eq
          (Pass.settleOne draft waiting >>= fun draft =>
            takeType file draft definition)
          (takeType file draft definition >>= fun draft =>
            Pass.settleOne draft waiting) := by
        apply Results.Same.of_ok_iff
        intro last
        unfold takeType
        split
        · next type =>
            simp only [bind_assoc]
            constructor
            · intro h
              rcases Results.bind_eq_ok_iff.1 h with
                ⟨next, hNext, hDefine⟩
              rcases Results.bind_eq_ok_iff.1 hDefine with
                ⟨type, hType, hLast⟩
              refine Results.bind_eq_ok_iff.2 ⟨type, hType, ?_⟩
              exact (define_settleOne_comm hKnown).1
                (Results.bind_eq_ok_iff.2 ⟨next, hNext, hLast⟩)
            · intro h
              rcases Results.bind_eq_ok_iff.1 h with
                ⟨type, hType, hBoth⟩
              rcases Results.bind_eq_ok_iff.1
                  ((define_settleOne_comm hKnown).2 hBoth) with
                ⟨next, hNext, hLast⟩
              refine Results.bind_eq_ok_iff.2 ⟨next, hNext, ?_⟩
              exact Results.bind_eq_ok_iff.2
                ⟨type, hType, hLast⟩
        · simp only [bind_pure, pure_bind]
      have hFirst := hOne.bind_right fun draft =>
        rest.foldlM (takeType file) draft
      simp only [bind_assoc] at hFirst
      refine hFirst.eq_trans (.bind_left ?_)
      intro next hNext
      exact ih next (find?_takeType hNext hKnown)

/-
  Types may be taken before or after extensions of types that
  the draft has.
-/
theorem same_takeTypes_settleAll
    (document : TypeSystemDocument)
    (waiting : List (SourceLocation × TypeExtension))
    (draft : Draft)
    (hKnown : ∀ extension ∈ waiting,
      draft.find? extension.2.name ≠ none) :
    Results.Same Eq
      (waiting.foldlM Pass.settleOne draft >>= fun draft =>
        document.foldlM (takeType file) draft)
      (document.foldlM (takeType file) draft >>= fun draft =>
        waiting.foldlM Pass.settleOne draft) := by
  induction waiting generalizing draft with
  | nil =>
      simp only [List.foldlM_nil, bind_pure, pure_bind]
      exact .refl (fun _ => rfl) _
  | cons first rest ih =>
      simp only [List.foldlM_cons, bind_assoc]
      have hLater : Results.Same Eq
          (Pass.settleOne draft first >>= fun draft =>
            rest.foldlM Pass.settleOne draft >>= fun draft =>
              document.foldlM (takeType file) draft)
          (Pass.settleOne draft first >>= fun draft =>
            document.foldlM (takeType file) draft >>=
              fun draft => rest.foldlM Pass.settleOne draft) := by
        apply Results.Same.bind_left
        intro next hNext
        apply ih
        intro extension hExtension
        have hApplies := settleOne_eq_ok_iff.1 hNext
        rw [Ne, hApplies.find?_eq_none_iff]
        exact hKnown extension
          (List.mem_cons_of_mem first hExtension)
      have hOne := @same_takeTypes_settleOne file document draft
        first (hKnown first List.mem_cons_self)
      have hFirst := hOne.bind_right fun draft =>
        rest.foldlM Pass.settleOne draft
      simp only [bind_assoc] at hFirst
      exact hLater.trans_eq hFirst

/- An extension of a type that the draft has does not wait. -/
theorem takeStage_extension_of_known
    {extension : TypeExtension}
    {stage : Stage}
    (h : stage.1.find? extension.name ≠ none) :
    Results.Same Eq
      (takeStage file stage (.extension extension))
      (Pass.settleOne stage.1
        (.ofSchema file extension.position, extension) >>=
          fun draft => pure (draft, stage.2)) := by
  apply Results.Same.of_ok_iff
  intro next
  simp only [Results.bind_eq_ok_iff, settleOne_eq_ok_iff]
  constructor
  · intro hTaken
    cases takeStage_eq_ok_iff.1 hTaken with
    | applied hApplies => exact ⟨_, hApplies, rfl⟩
    | waits _ hUnknown => exact absurd hUnknown h
  · intro hParts
    rcases hParts with ⟨draft, hApplies, hNext⟩
    cases hNext
    exact takeStage_eq_ok_iff.2 (.applied hApplies)

/- An extension of a type that the draft does not have waits. -/
theorem takeStage_extension_of_unknown
    {extension : TypeExtension}
    {stage : Stage}
    (hBuiltin : BuiltinScalar.ofName? extension.name = none)
    (h : stage.1.find? extension.name = none) :
    takeStage file stage (.extension extension) =
      .ok
        (stage.1, stage.2 ++
          [(.ofSchema file extension.position, extension)]) :=
  takeStage_eq_ok_iff.2 (.waits hBuiltin h)

/- No extension of a built-in scalar is taken. -/
theorem takeStage_extension_ne_ok
    {extension : TypeExtension}
    {stage next : Stage}
    (hBuiltin : BuiltinScalar.ofName? extension.name ≠ none) :
    takeStage file stage (.extension extension) ≠ .ok next := by
  intro h
  cases takeStage_eq_ok_iff.1 h with
  | applied hApplies => exact hBuiltin hApplies.notBuiltin
  | waits hNone _ => exact hBuiltin hNone

/-
  An extension of a type that the draft has may be applied with
  those that wait, given that this holds of what follows it.
-/
theorem same_takeStage_of_known
    (document : TypeSystemDocument)
    {extension : TypeExtension}
    {stage : Stage}
    (hKnown : stage.1.find? extension.name ≠ none)
    (hRest : ∀ draft,
      Results.Same Draft.Alike
        (document.foldlM (takeStage file) (draft, stage.2) >>=
          settleStage)
        (document.foldlM (takeType file) draft >>= fun draft =>
          settleStage
            (draft, stage.2 ++
              document.filterMap (extension? file)))) :
    Results.Same Draft.Alike
      (takeStage file stage (.extension extension) >>=
        fun stage =>
          document.foldlM (takeStage file) stage >>= settleStage)
      (document.foldlM (takeType file) stage.1 >>= fun draft =>
        settleStage
          (draft, stage.2 ++
            (.ofSchema file extension.position, extension) ::
              document.filterMap (extension? file))) := by
  have hTake : Results.Same Eq
      (takeStage file stage (.extension extension)) _ :=
    takeStage_extension_of_known hKnown
  have hFirst := hTake.bind_right fun stage =>
    document.foldlM (takeStage file) stage >>= settleStage
  simp only [bind_assoc, pure_bind] at hFirst
  have hTypes := @same_takeTypes_settleOne file document stage.1
    (.ofSchema file extension.position, extension) hKnown
  have hSecond := hTypes.bind_right fun draft =>
    settleStage
      (draft, stage.2 ++ document.filterMap (extension? file))
  simp only [bind_assoc] at hSecond
  apply hFirst.eq_trans
  refine (Results.Same.bind_left fun draft _ =>
    hRest draft).trans ?_ fun _ _ _ => alike_equivalence.trans
  refine hSecond.eq_trans (.bind_left fun draft _ => ?_)
  have hPerm := same_settleAll_of_perm
    (List.perm_middle.symm :
      List.Perm
        ((.ofSchema file extension.position, extension) ::
          (stage.2 ++ document.filterMap (extension? file))) _)
    (alike_equivalence.refl draft)
  rw [List.foldlM_cons] at hPerm
  exact hPerm

/-
  Taking a document and then applying what waits is taking its
  types and then applying all extensions.
-/
theorem same_takeStage_settleStage
    (document : TypeSystemDocument)
    (stage : Stage) :
    Results.Same Draft.Alike
      (document.foldlM (takeStage file) stage >>= settleStage)
      (document.foldlM (takeType file) stage.1 >>= fun draft =>
        settleStage
          (draft,
            stage.2 ++ document.filterMap (extension? file))) := by
  induction document generalizing stage with
  | nil =>
      simp only [List.foldlM_nil, pure_bind, List.filterMap_nil,
        List.append_nil]
      exact .refl alike_equivalence.refl _
  | cons definition rest ih =>
      simp only [List.foldlM_cons, bind_assoc]
      cases definition with
      | schema block =>
          simp only [takeStage, takeType, pure_bind]
          exact ih stage
      | directive definition =>
          simp only [takeStage, takeType, pure_bind]
          exact ih stage
      | type definition =>
          simp only [takeStage, takeType, bind_assoc, pure_bind]
          apply Results.Same.bind_left
          intro type hType
          apply Results.Same.bind_left
          intro draft hDraft
          exact ih (draft, stage.2)
      | extension extension =>
          have hTypes :
              takeType file stage.1 (.extension extension) =
                pure stage.1 := rfl
          rw [hTypes, pure_bind]
          simp only [List.filterMap_cons, extension?]
          by_cases hBuiltin :
              BuiltinScalar.ofName? extension.name = none
          · by_cases hKnown :
                stage.1.find? extension.name = none
            · rw [takeStage_extension_of_unknown hBuiltin hKnown]
              have hRest := ih
                (stage.1, stage.2 ++
                  [(.ofSchema file extension.position,
                    extension)])
              simp only [List.append_assoc, List.cons_append,
                List.nil_append] at hRest
              exact hRest
            · exact
                same_takeStage_of_known rest hKnown
                  (fun draft => ih (draft, stage.2))
          · apply Results.Same.failed
            · intro draft hDraft
              rcases Results.bind_eq_ok_iff.1 hDraft with
                ⟨next, hNext, -⟩
              exact takeStage_extension_ne_ok hBuiltin hNext
            · intro draft hDraft
              rcases Results.bind_eq_ok_iff.1 hDraft with
                ⟨next, -, hSettle⟩
              exact hBuiltin
                (known_of_settleAll hSettle
                  (.ofSchema file extension.position, extension)
                  (by simp)).1

end Draft

end GraphQL
