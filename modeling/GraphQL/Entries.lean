/-
  Named entries in insertion order.

  Objects, field lists, argument lists and type tables all keep
  their entries in the order in which the names first appeared.
  Writing to a name that is present keeps its place.

  Key definitions include:
    * `Entries.get?`, `Entries.insert`, `Entries.erase`
    * `Entries.ofList`: later values win, first places stay
-/

------------------------------------------------------------
-- Operations
------------------------------------------------------------

namespace GraphQL

/- A list of named entries, read from the front. -/
abbrev Entries (α : Type) := List (String × α)

namespace Entries

variable {α β : Type}

/- The first value stored under a name. -/
def get? : Entries α → String → Option α
| [], _ => none
| (name, value) :: rest, key =>
    if name = key then some value else get? rest key

/- Whether a name has an entry. -/
def contains (entries : Entries α) (key : String) : Bool :=
  (get? entries key).isSome

/- Store a value: in place if the name is present, else last. -/
def insert :
    Entries α → String → α → Entries α
| [], key, value => [(key, value)]
| (name, old) :: rest, key, value =>
    if name = key then
      (name, value) :: rest
    else
      (name, old) :: insert rest key value

/- Drop the first entry of a name; the others keep their order. -/
def erase : Entries α → String → Entries α
| [], _ => []
| (name, value) :: rest, key =>
    if name = key then rest else (name, value) :: erase rest key

/- Names in entry order. -/
def names (entries : Entries α) : List String :=
  entries.map Prod.fst

/- Values in entry order. -/
def values (entries : Entries α) : List α :=
  entries.map Prod.snd

/- Apply a function to every value. -/
def mapValues (f : α → β) (entries : Entries α) : Entries β :=
  entries.map fun entry => (entry.1, f entry.2)

/- Change the value of a name that is present. -/
def modify :
    Entries α → String → (α → α) → Entries α
| [], _, _ => []
| (name, value) :: rest, key, f =>
    if name = key then
      (name, f value) :: rest
    else
      (name, value) :: modify rest key f

/- Store every pair of a list in turn. -/
def insertAll (entries : Entries α) (pairs : List (String × α)) :
    Entries α :=
  pairs.foldl (fun acc pair => insert acc pair.1 pair.2) entries

/- Entries of a list of pairs: of a repeated name the first
   place and the last value count. -/
def ofList (pairs : List (String × α)) : Entries α :=
  insertAll [] pairs

------------------------------------------------------------
-- Lookup Laws
------------------------------------------------------------

@[simp]
theorem get?_nil (key : String) :
    get? ([] : Entries α) key = none :=
  rfl

/- A stored value is found again. -/
@[simp]
theorem get?_insert_self
    (entries : Entries α)
    (key : String)
    (value : α) :
    get? (insert entries key value) key = some value := by
  induction entries with
  | nil => simp [insert, get?]
  | cons entry rest ih =>
      by_cases h : entry.1 = key <;> simp [insert, get?, h, ih]

/- Storing under one name leaves every other name alone. -/
theorem get?_insert_of_ne
    (entries : Entries α)
    {key other : String}
    (value : α)
    (hNe : key ≠ other) :
    get? (insert entries key value) other =
      get? entries other := by
  induction entries with
  | nil => simp [insert, get?, hNe]
  | cons entry rest ih =>
      by_cases h : entry.1 = key
      · subst h
        simp [insert, get?, hNe]
      · simp [insert, get?, h, ih]

/- A name has an entry exactly when it is among the names. -/
theorem contains_iff_mem_names
    (entries : Entries α)
    (key : String) :
    contains entries key = true ↔ key ∈ names entries := by
  induction entries with
  | nil => simp [contains, names]
  | cons entry rest ih =>
      by_cases h : entry.1 = key
      · simp [contains, get?, names, h]
      · have hNe : key ≠ entry.1 := fun hEq => h hEq.symm
        simpa [contains, get?, names, h, hNe] using ih

/- What lookup finds is an entry. -/
theorem mem_of_get?
    {entries : Entries α}
    {key : String}
    {value : α}
    (h : get? entries key = some value) :
    (key, value) ∈ entries := by
  induction entries with
  | nil => simp at h
  | cons entry rest ih =>
      by_cases hName : entry.1 = key
      · have hValue : entry.2 = value := by
          simpa [get?, hName] using h
        subst hName hValue
        exact List.mem_cons_self
      · exact List.mem_cons_of_mem _
          (ih (by simpa [get?, hName] using h))

------------------------------------------------------------
-- Names
------------------------------------------------------------

/- Storing adds its name last unless it is already there. -/
theorem names_insert
    (entries : Entries α)
    (key : String)
    (value : α) :
    names (insert entries key value) =
      if key ∈ names entries then
        names entries
      else
        names entries ++ [key] := by
  induction entries with
  | nil => simp [insert, names]
  | cons entry rest ih =>
      by_cases h : entry.1 = key
      · simp [insert, names, h]
      · have hNe : key ≠ entry.1 := fun hEq => h hEq.symm
        have hTail := ih
        simp only [names] at hTail
        by_cases hMem : key ∈ rest.map Prod.fst
        · simp [insert, names, h, hTail, hMem]
        · simp [insert, names, h, hNe, hTail, hMem]

/- Storing keeps names distinct. -/
theorem nodup_names_insert
    {entries : Entries α}
    (key : String)
    (value : α)
    (h : (names entries).Nodup) :
    (names (insert entries key value)).Nodup := by
  rw [names_insert]
  split
  · exact h
  · next hMem =>
      rw [List.nodup_append]
      refine ⟨h, by simp, ?_⟩
      intro name hName last hLast hEq
      simp only [List.mem_singleton] at hLast
      exact hMem (hLast ▸ hEq ▸ hName)

/- Entries made from a list have distinct names. -/
theorem nodup_names_ofList (pairs : List (String × α)) :
    (names (ofList pairs)).Nodup := by
  have step :
      ∀ (pairs : List (String × α)) (entries : Entries α),
        (names entries).Nodup →
          (names (insertAll entries pairs)).Nodup := by
    intro pairs
    induction pairs with
    | nil => intro entries h; exact h
    | cons pair rest ih =>
        intro entries h
        exact ih _ (nodup_names_insert pair.1 pair.2 h)
  exact step pairs [] (by simp [names])

end Entries

end GraphQL
