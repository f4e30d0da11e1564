import GraphQL.Execution.Response

/-
  Responses that are read back from their JSON form.

  Whatever is left out of the form of a response is what a
  reader takes for a missing field. All but one kind of
  response is therefore read back as it was written: null as
  data is written, and read as no data.

  Main declarations:
    * `Json.readListOr?_nonEmptyField`
    * `ResponseError.ofJson?_toJson`
    * `Response.ofJson?_toJson`
    * `Response.toJson_injective`
    * `Response.read_back_iff`
-/

------------------------------------------------------------
-- Lists
------------------------------------------------------------

namespace GraphQL

namespace Json

variable {α : Type} {read : Json → Option α} {write : α → Json}

/- Items that are each read back are read back together. -/
theorem readList?_array
    (hItem : ∀ item, read (write item) = some item)
    (items : List α) :
    readList? read (array (items.map write)) = some items := by
  have hItems : (items.map write).mapM read = some items := by
    induction items with
    | nil => rfl
    | cons item rest ih =>
        rw [List.map_cons, List.mapM_cons, hItem, ih]
        rfl
  exact hItems

/- A field that may be left out has one name only. -/
theorem get?_nonEmptyField_of_ne
    {name other : String}
    (hNe : name ≠ other)
    (items : List α)
    (rest : Entries Json) :
    Entries.get? (nonEmptyField name write items ++ rest)
        other =
      rest.get? other := by
  cases items with
  | nil => rfl
  | cons item items =>
      simp [nonEmptyField, Entries.get?, hNe]

/-
  A list is read back from its field, which is left out exactly
  if the list is empty.
-/
theorem readListOr?_nonEmptyField
    (hItem : ∀ item, read (write item) = some item)
    (name : String)
    (items : List α)
    {rest : Entries Json}
    (hRest : rest.get? name = none) :
    readListOr? read
        (Entries.get? (nonEmptyField name write items ++ rest)
          name) =
      some items := by
  cases items with
  | nil =>
      have hNone : Entries.get?
          (nonEmptyField name write ([] : List α) ++ rest)
            name = none := hRest
      rw [hNone]
      rfl
  | cons item items =>
      have hSome : Entries.get?
          (nonEmptyField name write (item :: items) ++ rest)
            name =
          some (array ((item :: items).map write)) := by
        simp [nonEmptyField, Entries.get?]
      rw [hSome]
      exact readList?_array hItem (item :: items)

/- Natural numbers are read back. -/
theorem readNat?_ofNat (n : Nat) : (ofNat n).readNat? = some n := by
  simp [ofNat, ofInt, readNat?]

end Json

------------------------------------------------------------
-- Errors
------------------------------------------------------------

theorem Position.ofJson?_toJson (pos : Position) :
    ofJson? pos.toJson = some pos := by
  have hSlots : pos.toJson.slots? ["line", "column"] 2 =
      some [some (.ofNat pos.line), some (.ofNat pos.column)] :=
    rfl
  simp [ofJson?, hSlots, Json.readNat?_ofNat]

/- Keys are strings and indices are numbers. -/
theorem PathSegment.ofJson?_toJson (segment : PathSegment) :
    ofJson? segment.toJson = some segment := by
  cases segment with
  | key name => rfl
  | index position =>
      have hRead : ofJson? (index position).toJson =
          (Json.ofNat position).readNat?.map index := rfl
      rw [hRead, Json.readNat?_ofNat]
      rfl

theorem ResponseError.ofJson?_toJson (error : ResponseError) :
    ofJson? error.toJson = some error := by
  rcases error with ⟨message, locations, path⟩
  let located := Json.nonEmptyField "locations" Position.toJson
    locations
  let pathed := Json.nonEmptyField "path" PathSegment.toJson path
  have hPathed : Entries.get? pathed "locations" = none := by
    have hNe : "path" ≠ "locations" := by decide
    simpa [pathed] using
      Json.get?_nonEmptyField_of_ne hNe path []
  have hPath : Entries.get? (located ++ pathed) "path" =
      Entries.get? pathed "path" :=
    Json.get?_nonEmptyField_of_ne (by decide) locations pathed
  have hSlots :
      (toJson ⟨message, locations, path⟩).slots?
          ["message", "locations", "path"] 1 =
        some
          [ some (.string message),
            Entries.get? (located ++ pathed) "locations",
            Entries.get? pathed "path"] := by
    rw [← hPath]
    rfl
  have hLocations := Json.readListOr?_nonEmptyField
    Position.ofJson?_toJson "locations" locations hPathed
  have hNone : Entries.get? ([] : Entries Json) "path" = none :=
    rfl
  have hSegments := Json.readListOr?_nonEmptyField
    PathSegment.ofJson?_toJson "path" path hNone
  rw [List.append_nil] at hSegments
  simp only [ofJson?, hSlots, Option.bind_eq_bind,
    Option.bind_some, Json.readString?, Json.string?,
    hLocations, hSegments, located, pathed]
  rfl

------------------------------------------------------------
-- Responses
------------------------------------------------------------

namespace Response

/- The member for data of a response is its data. -/
theorem get?_data_toJson (response : Response) :
    response.toJson.get? "data" = response.data := by
  rcases response with ⟨errors, data⟩
  cases data with
  | none =>
      exact Json.get?_nonEmptyField_of_ne (by decide) errors []
  | some value =>
      exact Json.get?_nonEmptyField_of_ne (by decide) errors
        [("data", value)]

/- A response is read back, but for null as its data. -/
theorem ofJson?_toJson (response : Response) :
    ofJson? response.toJson =
      some
        { response with
          data := response.data.filter fun value =>
            !value.isNull } := by
  have hData := get?_data_toJson response
  rcases response with ⟨errors, data⟩
  let last : Entries Json :=
    match data with
    | some value => [("data", value)]
    | none => []
  have hLast : last.get? "errors" = none := by
    cases data <;> rfl
  have hErrors := Json.readListOr?_nonEmptyField
    ResponseError.ofJson?_toJson "errors" errors hLast
  have hSlots :
      (toJson ⟨errors, data⟩).slots? ["errors", "data"] 0 =
        some
          [ Entries.get?
              (Json.nonEmptyField "errors" ResponseError.toJson
                errors ++ last) "errors",
            (toJson ⟨errors, data⟩).get? "data"] := by
    cases data <;> rfl
  simp only [ofJson?, hSlots, hData, Option.bind_eq_bind,
    Option.bind_some, hErrors]
  rfl

/- Different responses are written differently. -/
theorem toJson_injective : toJson.Injective := by
  intro first second h
  have hRead := congrArg ofJson? h
  rw [ofJson?_toJson, ofJson?_toJson] at hRead
  have hErrors : first.errors = second.errors :=
    (Response.mk.inj (Option.some.inj hRead)).1
  have hData : first.data = second.data := by
    rw [← get?_data_toJson first, h, get?_data_toJson]
  cases first
  cases second
  cases hErrors
  cases hData
  rfl

/-
  A response is read back from what it is written as exactly if
  its data is not null. No two responses are written alike: it
  is the reader that takes null for no data.
-/
theorem read_back_iff (response : Response) :
    (ofJson? response.toJson = some response ↔
      response.data ≠ some .null) ∧
    (response.data = some .null →
      ofJson? response.toJson =
        some { response with data := none }) ∧
    ∀ other : Response,
      other.toJson = response.toJson → other = response := by
  refine ⟨⟨?_, ?_⟩, ?_, fun other h => toJson_injective h⟩
  · intro hRead hNull
    rw [ofJson?_toJson, hNull] at hRead
    have hData := congrArg data (Option.some.inj hRead)
    rw [hNull] at hData
    cases hData
  · intro hNotNull
    rw [ofJson?_toJson]
    rcases response with ⟨errors, data⟩
    cases data with
    | none => rfl
    | some value =>
        cases value with
        | null => exact absurd rfl hNotNull
        | _ => rfl
  · intro hNull
    rw [ofJson?_toJson, hNull]
    rfl

/-
  The response to a request whose data was given up is read as
  that to a request that was never executed.
-/
theorem given_up_read_as_refused :
    let error : ResponseError :=
      ⟨"Cannot return null for non-nullable field Query.a.",
        [⟨1, 3⟩], [.key "a"]⟩
    ofJson? (toJson ⟨[error], some .null⟩) =
        some (refusal [error]) ∧
      ofJson? (toJson ⟨[error], some .null⟩) ≠
        some ⟨[error], some .null⟩ := by
  intro error
  have hRead : ofJson? (toJson ⟨[error], some .null⟩) =
      some (refusal [error]) := rfl
  refine ⟨hRead, ?_⟩
  rw [hRead]
  intro hSame
  cases hSame

end Response

end GraphQL
