import GraphQL.Proofs.Schema.Resolvers
import GraphQL.Proofs.Schema.Upholding

/-
  Provenance: what decorators may take from schema text.

  The check of a decorated type compares declared attributes,
  but neither places nor applied directives, nor the order of
  members, nor what specifies a scalar. Schema text is thus
  upheld exactly if the decorator leaves these alone, and if
  later decorators do so, too, in all later schemas. Resolver
  maps do leave them alone.

  Key definitions include:
    * `TypeDef.KeepsProvenance`
    * `Decorator.KeepsProvenance`
    * `Schema.FollowedBy`

  Main declarations:
    * `Protection.upholds_iff_of_check`
    * `ResolverMap.keepsProvenance`
    * `Schema.upheld_iff_keepsProvenance`
    * `Catalogue.respecified`
-/

------------------------------------------------------------
-- Provenance
------------------------------------------------------------

namespace GraphQL

namespace TypeDef

/-
  What stands in schema text of a type is left in its place and
  order and with its directives, and a scalar with what
  specifies it.
-/
structure KeepsProvenance (kept given : TypeDef) : Prop where
  location_eq : given.location.isSdl = true →
    kept.location = given.location
  directives : given.location.isSdl = true →
    given.header.directives <+: kept.header.directives
  fields :
    Entries.Upholds OutputField.mark
      (fun field field' =>
        Entries.Upholds InputValue.mark (fun _ _ => True)
          field.arguments field'.arguments)
      kept.fields given.fields
  inputFields :
    Entries.Upholds InputValue.mark (fun _ _ => True)
      kept.inputFields given.inputFields
  values :
    Entries.Upholds EnumValue.mark (fun _ _ => True)
      kept.values given.values
  specifiedBy : ∀ url, given.specifiedBy = some url →
    kept.specifiedBy = some url

/- A type that is upheld keeps its provenance. -/
theorem Upholds.keepsProvenance
    {kept given : TypeDef}
    (h : kept.Upholds given) : kept.KeepsProvenance given where
  location_eq hText := (h.header hText).location_eq
  directives hText := (h.header hText).directives
  fields := h.fields.imp fun _ _ _ _ _ _ hField =>
    hField.arguments.imp fun _ _ _ _ _ _ _ => trivial
  inputFields := h.inputFields.imp fun _ _ _ _ _ _ _ => trivial
  values := h.values.imp fun _ _ _ _ _ _ _ => trivial
  specifiedBy := h.specifiedBy

end TypeDef

/- A decorator whose accepted results keep their provenance. -/
def Decorator.KeepsProvenance (decorator : Decorator) : Prop :=
  ∀ {type kept : TypeDef},
    decorator.apply type = .ok kept → kept.KeepsProvenance type

------------------------------------------------------------
-- Checks
------------------------------------------------------------

/- Arguments that are the same are found under their names. -/
theorem Entries.retains_of_forall₂
    {kept given : Entries InputValue}
    (h : List.Forall₂
      (fun entry entry' : String × InputValue =>
        entry.1 = entry'.1 ∧ entry.2.Retains entry'.2)
      kept given)
    {name : String}
    {value value' : InputValue}
    (hKept : Entries.get? kept name = some value)
    (hGiven : Entries.get? given name = some value') :
    value.Retains value' := by
  induction h with
  | nil => cases hKept
  | @cons entry entry' rest rest' hEntry _ ih =>
      rcases entry with ⟨key, first⟩
      rcases entry' with ⟨_, first'⟩
      rcases hEntry with ⟨rfl, hRetains⟩
      by_cases hName : key = name
      · simp only [Entries.get?, if_pos hName] at hKept hGiven
        cases hKept
        cases hGiven
        exact hRetains
      · simp only [Entries.get?, if_neg hName] at hKept hGiven
        exact ih hKept hGiven

namespace Protection

variable {expected : List String} {given kept : TypeDef}

/- Whatever its kind, a type is checked for kind and name. -/
theorem body_of_check
    (h : check expected given kept = .ok ()) :
    kept.kind = given.kind ∧ kept.name = given.name ∧
      (given.location.isSdl = true →
        kept.header.description = given.header.description) ∧
      checkBody expected given kept = .ok () := by
  simp only [check, Results.bind_eq_ok_iff, require_eq_ok_iff,
    beq_iff_eq, Bool.or_eq_true, Bool.not_eq_true'] at h
  rcases h with ⟨-, hKind, -, hName, -, hDescription, hBody⟩
  refine ⟨hKind.symm, hName.symm, fun hText => ?_, hBody⟩
  rcases hDescription with hOther | hSame
  · rw [hText] at hOther
    cases hOther
  · exact hSame.symm

/- Fields are checked against those of their names. -/
theorem keepsField_of_check
    (h : check expected given kept = .ok ())
    {name : String}
    {field field' : OutputField}
    (hKept : kept.fields.get? name = some field)
    (hGiven : given.fields.get? name = some field') :
    KeepsField field field' := by
  have hShape : ∀ {type : String} {isSdl : Bool}
      {shape shape' : FieldShape},
      checkShape type isSdl expected shape shape' = .ok () →
      shape'.fields.get? name = some field →
      shape.fields.get? name = some field' →
      KeepsField field field' := by
    intro type isSdl shape shape' hCheck hField hField'
    rcases Results.bind_eq_ok_iff.1 hCheck with ⟨_, -, hFields⟩
    have hFound :=
      (keepsField_of_checkFields hFields).rel_get? name
    rw [hField, hField'] at hFound
    cases hFound with
    | some hKeeps => exact hKeeps
  rcases body_of_check h with ⟨hKind, -, -, hBody⟩
  cases given with
  | object given =>
      cases kept <;> cases hKind
      exact hShape hBody hKept hGiven
  | interface given =>
      cases kept <;> cases hKind
      exact hShape hBody hKept hGiven
  | _ => cases hGiven

/- So are input fields, if they stand in schema text. -/
theorem retains_inputField_of_check
    (h : check expected given kept = .ok ())
    {name : String}
    {field field' : InputValue}
    (hKept : kept.inputFields.get? name = some field)
    (hGiven : given.inputFields.get? name = some field')
    (hText : field'.mark.isSdl = true) :
    field.Retains field' := by
  rcases body_of_check h with ⟨hKind, -, -, hBody⟩
  cases given with
  | inputObject given =>
      cases kept <;> cases hKind
      simp only [checkBody, checkInputFields,
        Results.bind_eq_ok_iff, Results.forM_eq_ok_iff] at hBody
      rcases hBody with ⟨-, -, hFields⟩
      have hCheck := hFields _ (Entries.mem_of_get? hGiven)
      simp only [TypeDef.inputFields] at hKept
      have hLocation : field'.location.isSdl = true := hText
      simpa [hKept, hLocation, InputValue.same_iff_retains]
        using hCheck
  | _ => cases hGiven

/- So are the values of an enum. -/
theorem retains_value_of_check
    (h : check expected given kept = .ok ())
    {name : String}
    {value value' : EnumValue}
    (hKept : kept.values.get? name = some value)
    (hGiven : given.values.get? name = some value')
    (hText : value'.mark.isSdl = true) :
    value.Retains value' := by
  rcases body_of_check h with ⟨hKind, -, -, hBody⟩
  cases given with
  | enum given =>
      cases kept <;> cases hKind
      simp only [TypeDef.values, EnumValue.get?_entries]
        at hKept hGiven
      simp only [checkBody, checkValues,
        Results.bind_eq_ok_iff, Results.forM_eq_ok_iff] at hBody
      rcases hBody with ⟨-, -, hValues⟩
      have hName : value'.name = name := by
        simpa using List.find?_some hGiven
      have hCheck :=
        hValues value' (List.mem_of_find?_eq_some hGiven)
      have hLocation : value'.location.isSdl = true := hText
      simp only [hName, hKept, checkValue, hLocation, if_true,
        Results.bind_eq_ok_iff, require_eq_ok_iff, beq_iff_eq]
        at hCheck
      rcases hCheck with ⟨-, hDescription, hDeprecation⟩
      exact ⟨hDescription.symm, hDeprecation.symm⟩
  | _ => cases hGiven

/- Interfaces and members that schema text lists are kept. -/
theorem lists_of_check
    (h : check expected given kept = .ok ())
    (hText : given.location.isSdl = true) :
    kept.interfaces = given.interfaces ∧
      kept.members = given.members := by
  rcases body_of_check h with ⟨hKind, -, -, hBody⟩
  have hShape : ∀ {type : String} {shape shape' : FieldShape},
      checkShape type true expected shape shape' = .ok () →
      shape'.interfaces = shape.interfaces := by
    intro type shape shape' hCheck
    simp only [checkShape, Results.bind_eq_ok_iff,
      require_eq_ok_iff, Bool.not_true, Bool.false_or,
      beq_iff_eq] at hCheck
    rcases hCheck with ⟨-, hInterfaces, -⟩
    exact hInterfaces.symm
  simp only [checkBody, hText] at hBody
  cases given with
  | object given =>
      cases kept <;> cases hKind
      exact ⟨hShape hBody, rfl⟩
  | interface given =>
      cases kept <;> cases hKind
      exact ⟨hShape hBody, rfl⟩
  | union given =>
      cases kept <;> cases hKind
      simp only [require_eq_ok_iff, Bool.not_true,
        Bool.false_or, beq_iff_eq] at hBody
      exact ⟨rfl, hBody.symm⟩
  | _ =>
      cases kept <;> cases hKind
      exact ⟨rfl, rfl⟩

/-
  What passes the check upholds what was given exactly if it
  keeps its provenance, which the check does not ask for.
-/
theorem upholds_iff_of_check
    (h : check expected given kept = .ok ()) :
    kept.Upholds given ↔ kept.KeepsProvenance given := by
  refine ⟨TypeDef.Upholds.keepsProvenance, fun hKeeps => ?_⟩
  rcases body_of_check h with ⟨hKind, hName, hDescription, -⟩
  refine
    { kind_eq := hKind
      name_eq := hName
      header := fun hText => ?_
      fields := hKeeps.fields.imp ?_
      inputFields := hKeeps.inputFields.imp ?_
      values := hKeeps.values.imp ?_
      specifiedBy := hKeeps.specifiedBy }
  · have hLists := lists_of_check h hText
    exact
      ⟨hKeeps.location_eq hText, hDescription hText,
        hKeeps.directives hText, hLists.1 ▸ List.prefix_rfl,
        hLists.2 ▸ List.prefix_rfl⟩
  · intro name field field' hField hField' hText hArguments
    have hRetains :=
      (keepsField_of_check h hField hField').retains hText
    refine ⟨hRetains, hArguments.imp ?_⟩
    intro argument value value' hValue hValue' _ _
    exact Entries.retains_of_forall₂ hRetains.arguments hValue
      hValue'
  · intro name field field' hField hField' hText _
    exact retains_inputField_of_check h hField hField' hText
  · intro name value value' hValue hValue' hText _
    exact retains_value_of_check h hValue hValue' hText

end Protection

------------------------------------------------------------
-- Resolver Maps
------------------------------------------------------------

namespace ResolverMap

/- A field with the resolver that is given for its name. -/
def resolvedField
    (resolvers : Entries Hook)
    (name : String)
    (field : OutputField) : OutputField :=
  { field with
    resolver := (resolvers.get? name).or field.resolver }

theorem decorateFields_eq
    (resolvers : Entries Hook)
    (fields : Entries OutputField) :
    decorateFields resolvers fields =
      fields.map fun entry =>
        (entry.1, resolvedField resolvers entry.1 entry.2) := by
  unfold decorateFields
  apply List.map_congr_left
  rintro ⟨name, field⟩ -
  cases hHook : resolvers.get? name <;>
    simp [resolvedField, hHook]

/- Resolvers leave what is declared of fields alone. -/
theorem upholds_decorateFields
    (resolvers : Entries Hook)
    (fields : Entries OutputField) :
    Entries.Upholds OutputField.mark OutputField.Upholds
      (decorateFields resolvers fields) fields := by
  rw [decorateFields_eq]
  apply Entries.upholds_map
  · intro name field
    rfl
  · intro name field
    have hSame := OutputField.Upholds.refl field
    exact
      ⟨⟨rfl, rfl, hSame.retains.arguments, rfl, rfl⟩,
        hSame.arguments⟩

/- A resolver map upholds all types. -/
theorem upholds_decorate (map : ResolverMap) (type : TypeDef) :
    (map.decorate type).Upholds type := by
  unfold decorate
  split
  · exact .refl type
  · next hooks _ =>
      cases type with
      | object type =>
          exact
            { TypeDef.Upholds.refl (.object type) with
              header := fun _ =>
                ⟨rfl, rfl, List.prefix_rfl, List.prefix_rfl,
                  List.prefix_rfl⟩
              fields := upholds_decorateFields _ _ }
      | interface type =>
          exact
            { TypeDef.Upholds.refl (.interface type) with
              header := fun _ =>
                ⟨rfl, rfl, List.prefix_rfl, List.prefix_rfl,
                  List.prefix_rfl⟩
              fields := upholds_decorateFields _ _ }
      | union type =>
          exact
            { TypeDef.Upholds.refl (.union type) with
              header := fun _ =>
                ⟨rfl, rfl, List.prefix_rfl, List.prefix_rfl,
                  List.prefix_rfl⟩ }
      | _ => exact .refl _

theorem keepsProvenance (map : ResolverMap) :
    map.decorator.KeepsProvenance := by
  intro type kept h
  rcases Results.bind_eq_ok_iff.1 h with ⟨_, -, hKept⟩
  cases hKept
  exact (map.upholds_decorate type).keepsProvenance

end ResolverMap

------------------------------------------------------------
-- Passes
------------------------------------------------------------

/- If there is a decorator, it keeps provenance. -/
def Decorator.AllKeepProvenance
    (decorator? : Option Decorator) : Prop :=
  ∀ decorator, decorator? = some decorator →
    decorator.KeepsProvenance

namespace Pass

variable {decorator? : Option Decorator}
variable {entry : DraftEntry} {type : TypeDef}

/- A type that is finished upholds what is left alone. -/
theorem upholds_iff_of_finished
    (h : finished decorator? entry = .ok type) :
    type.Upholds entry.type ↔
      type.KeepsProvenance entry.type := by
  rcases of_finished h with rfl | ⟨decorator, -, hApply⟩
  · exact iff_of_true (.refl _)
      (TypeDef.Upholds.refl _).keepsProvenance
  · rcases Decorator.apply_eq_ok_iff.1 hApply with ⟨hCheck, -⟩
    exact Protection.upholds_iff_of_check hCheck

theorem upholds_of_finished
    (hKeeps : Decorator.AllKeepProvenance decorator?)
    (h : finished decorator? entry = .ok type) :
    type.Upholds entry.type := by
  rcases of_finished h with rfl | ⟨decorator, rfl, hApply⟩
  · exact .refl _
  · exact (upholds_iff_of_finished h).2
      (hKeeps decorator rfl hApply)

end Pass

------------------------------------------------------------
-- Schemas
------------------------------------------------------------

namespace Schema

/-
  Extend a schema once, without a decorator or with one that
  keeps provenance.
-/
inductive FollowedBy (base : Schema) : Schema → Prop where
  | pass {pass : Pass} {decorator? : Option Decorator}
      {schema : Schema} :
      Pass.Grows (.ofSchema base) pass →
      Decorator.AllKeepProvenance decorator? →
      (base.finishExtension pass decorator?).result =
        .ok schema →
      FollowedBy base schema

variable {base first later : Schema}

/- One extension upholds what stood in schema text before. -/
theorem FollowedBy.exists_upholds
    (h : base.FollowedBy later)
    {name : String}
    {type : TypeDef}
    (hType : base.lookup name = some (.defined type)) :
    ∃ type', later.lookup name = some (.defined type') ∧
      type'.Upholds type := by
  rcases h with ⟨hGrows, hKeeps, hFinish⟩
  rw [result_finishExtension] at hFinish
  have hKept : TypeDef.KeptByExtension
      fun type' => type'.Upholds type :=
    fun hExtends hUpholds => hExtends.upholds.trans hUpholds
  have hStart : (Pass.ofSchema base).draft.Has name
      fun type' => type'.Upholds type :=
    ⟨_, TypeGraph.find?_ofGraph hType, .refl type⟩
  exact exists_of_build hKept
    (fun hFinished hUpholds =>
      (Pass.upholds_of_finished hKeeps hFinished).trans hUpholds)
    hFinish (hGrows.has hKept hStart)

/- So do any number of extensions. -/
theorem exists_upholds_of_followed
    (h : Relation.ReflTransGen FollowedBy first later)
    {name : String}
    {type : TypeDef}
    (hType : first.lookup name = some (.defined type)) :
    ∃ type', later.lookup name = some (.defined type') ∧
      type'.Upholds type := by
  induction h with
  | refl => exact ⟨type, hType, .refl type⟩
  | tail _ hStep ih =>
      rcases ih with ⟨next, hNext, hUpholds⟩
      rcases hStep.exists_upholds hNext with
        ⟨last, hLast, hUpholds'⟩
      exact ⟨last, hLast, hUpholds'.trans hUpholds⟩

/-
  Whatever decorator a pass has: what stands in schema text of
  a type when the pass ends is upheld in the schema exactly if
  it is left in its place and order and with its directives.
  Then it is upheld in all schemas that follow, too.
-/
theorem upheld_iff_keepsProvenance
    {pass : Pass}
    {decorator? : Option Decorator}
    {draft : Draft}
    {entry : DraftEntry}
    (hDraft : pass.settle = .ok draft)
    (hBuild : pass.build decorator? = .ok first)
    (hEntry : entry ∈ draft) :
    ∃ type,
      first.lookup entry.type.name = some (.defined type) ∧
      (type.Upholds entry.type ↔
        type.KeepsProvenance entry.type) ∧
      (type.KeepsProvenance entry.type → ∀ later,
        Relation.ReflTransGen FollowedBy first later →
        ∃ type',
          later.lookup entry.type.name =
              some (.defined type') ∧
            type'.Upholds entry.type) := by
  rcases exists_finished_of_build hDraft hBuild hEntry with
    ⟨type, hType, hLookup⟩
  have hIff := Pass.upholds_iff_of_finished hType
  refine ⟨type, hLookup, hIff, fun hKeeps later hLater => ?_⟩
  rcases exists_upholds_of_followed hLater hLookup with
    ⟨type', hLookup', hUpholds⟩
  exact ⟨type', hLookup', hUpholds.trans (hIff.2 hKeeps)⟩

end Schema

------------------------------------------------------------
-- A Catalogue
------------------------------------------------------------

namespace Catalogue

theorem allKeepProvenance_of_map (map : ResolverMap) :
    Decorator.AllKeepProvenance (some map.decorator) := by
  rintro _ ⟨⟩
  exact map.keepsProvenance

/- Books are upheld in a catalogue with resolvers and films. -/
theorem book_upheld :
    ∃ extended type,
      pass.settle = .ok pass.draft ∧
        pass.build (some resolvers) = .ok resolved ∧
        resolved.extend [supplement] (some filmResolvers) =
          .ok extended ∧
        extended.lookup "Book" = some (.defined type) ∧
        type.Upholds (.object book) := by
  have hOk :
      (resolved.extend [supplement] (some filmResolvers)).isOk =
        true := by
    with_unfolding_all rfl
  cases hExtended :
      resolved.extend [supplement] (some filmResolvers) with
  | error error =>
      rw [hExtended] at hOk
      cases hOk
  | ok extended =>
      have hNext := hExtended
      unfold Schema.extend at hNext
      simp only [List.foldlM_cons, List.foldlM_nil, bind_pure]
        at hNext
      rcases Results.bind_eq_ok_iff.1 hNext with
        ⟨next, hLoad, hBuild⟩
      have hStep : resolved.FollowedBy extended :=
        .pass (.load .start hLoad) (allKeepProvenance_of_map _)
          ((Schema.result_finishExtension _ _ _).trans hBuild)
      have hBook : (⟨.object book, true⟩ : DraftEntry) ∈
          pass.draft := by
        simp [pass]
      have hSettled : pass.settle = .ok pass.draft := by
        with_unfolding_all rfl
      rcases Schema.upheld_iff_keepsProvenance hSettled
          build_resolvers hBook with
        ⟨first, hFirst, -, hFollowed⟩
      have hSame : resolved.lookup "Book" =
          some (.defined (.object book)) := rfl
      cases hSame.symm.trans hFirst
      have hKeeps : (TypeDef.object book).KeepsProvenance
          (.object book) :=
        (TypeDef.Upholds.refl _).keepsProvenance
      rcases hFollowed hKeeps extended (.single hStep) with
        ⟨type, hLookup, hUpholds⟩
      exact
        ⟨extended, type, hSettled, build_resolvers, rfl, hLookup,
          hUpholds⟩

/- Addresses, as schema text specifies them. -/
def addresses : TypeSystemDocument :=
  [ .type
      ⟨position, none, "Query", [],
        .object [] [declared "u" (.named "Url")]⟩,
    .type
      ⟨position, none, "Url",
        [⟨position, "specifiedBy", [("url", .string "a")]⟩],
        .scalar⟩]

def url : ScalarType where
  header :=
    { header "Url" with
      directives :=
        [⟨"specifiedBy", [("url", .string "a")], place⟩] }
  serialize := none
  parseValue := none
  parseLiteral := none
  specifiedBy := some "a"

/- The pass that takes the addresses. -/
def addressPass : Pass :=
  let root : ObjectType :=
    ⟨header "Query",
      ⟨[field "u" (.named "Url" true place)], [], none⟩, none⟩
  { Pass.empty with
    draft := [⟨.object root, true⟩, ⟨.scalar url, true⟩] }

/- A decorator that specifies scalars by another address. -/
def respecify : Decorator :=
  .ofFunction fun
    | .scalar type =>
        .scalar { type with specifiedBy := some "b" }
    | type => type

/-
  The other address is accepted in place of the one that stands
  in schema text.
-/
theorem respecified :
    ∃ schema kept,
      Pass.empty.load none addresses = .ok addressPass ∧
        addressPass.settle = .ok addressPass.draft ∧
        ⟨.scalar url, true⟩ ∈ addressPass.draft ∧
        (TypeDef.scalar url).location.isSdl = true ∧
        addressPass.build (some respecify) = .ok schema ∧
        schema.lookup "Url" = some (.defined kept) ∧
        ¬kept.KeepsProvenance (.scalar url) := by
  have hFound :
      (addressPass.build (some respecify)).map
          (fun schema => schema.lookup "Url") =
        .ok (some (.defined (.scalar
          { url with specifiedBy := some "b" }))) := by
    with_unfolding_all rfl
  cases hSchema : addressPass.build (some respecify) with
  | error error =>
      rw [hSchema] at hFound
      cases hFound
  | ok schema =>
      rw [hSchema] at hFound
      refine
        ⟨schema, _, by rfl, by with_unfolding_all rfl,
          by simp [addressPass], by rfl, rfl,
          Except.ok.inj hFound, fun hKeeps => ?_⟩
      have hUrl := hKeeps.specifiedBy "a" rfl
      exact absurd hUrl (by decide)

end Catalogue

end GraphQL
