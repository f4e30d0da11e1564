import GraphQL.Proofs.Deferred.Histories

/-
  Handles that are made later.

  Operations lead from one store to another. The handles that
  there are refer to the cells that they referred to, and read
  as they did, whatever is made or read after them.

  Key definitions include:
    * `Deferred.Store.LeadsTo`
    * `Deferred.Store.Arises`
    * `Deferred.Store.Makes`, `Deferred.Store.IsLater`

  Main declarations:
    * `Deferred.Store.LeadsTo.same`
    * `Deferred.Store.IsLater.not_same`
    * `Deferred.Store.Arises.share`, `Deferred.Store.Arises.map`
    * `Deferred.Store.Arises.read`
-/

------------------------------------------------------------
-- Stores That Lead To Others
------------------------------------------------------------

namespace GraphQL

namespace Deferred

variable {α : Type} {n : Nat}

namespace Store

variable {store next last : Store α} {value : α}
variable {a b h i : Nat}

/- What a store keeps of another that it comes from. -/
structure LeadsTo (store next : Store α) : Prop where
  handles : store.handles <+: next.handles
  cells : store.cells.length ≤ next.cells.length
  reads : ∀ h value, (store.read h).2 = some value →
    (next.read h).2 = some value

namespace LeadsTo

theorem refl (store : Store α) : store.LeadsTo store :=
  ⟨List.prefix_rfl, Nat.le_refl _, fun _ _ hRead => hRead⟩

theorem trans
    (hNext : store.LeadsTo next)
    (hLast : next.LeadsTo last) : store.LeadsTo last where
  handles := hNext.handles.trans hLast.handles
  cells := Nat.le_trans hNext.cells hLast.cells
  reads _ _ hRead := hLast.reads _ _ (hNext.reads _ _ hRead)

theorem handle
    (hLeads : store.LeadsTo next)
    (hHandle : store.handles[h]? = some i) :
    next.handles[h]? = some i := by
  rcases hLeads.handles with ⟨more, hMore⟩
  rw [← hMore]
  exact getElem?_append_of_eq_some hHandle

end LeadsTo

theorem same_eq_true_iff :
    store.same a b = true ↔
      ∃ i, store.handles[a]? = some i ∧
        store.handles[b]? = some i := by
  unfold same
  split
  · next i j hFirst hSecond =>
      rw [beq_iff_eq, hFirst, hSecond]
      constructor
      · rintro rfl
        exact ⟨i, rfl, rfl⟩
      · rintro ⟨k, hFirst, hSecond⟩
        cases hFirst
        cases hSecond
        rfl
  · next hNone =>
      constructor
      · intro hFalse
        cases hFalse
      · rintro ⟨i, hFirst, hSecond⟩
        exact (hNone i i hFirst hSecond).elim

/- Handles that have one cell always do. -/
theorem LeadsTo.same
    (hLeads : store.LeadsTo next)
    (hSame : store.same a b = true) :
    next.same a b = true := by
  rcases same_eq_true_iff.1 hSame with ⟨i, hFirst, hSecond⟩
  exact same_eq_true_iff.2
    ⟨i, hLeads.handle hFirst, hLeads.handle hSecond⟩

/- A handle to a cell that a store does not have yet. -/
def IsLater (store next : Store α) (h : Nat) : Prop :=
  ∃ i, next.handles[h]? = some i ∧ store.cells.length ≤ i

theorem IsLater.of_leadsTo
    (hLater : store.IsLater next h)
    (hLeads : next.LeadsTo last) : store.IsLater last h := by
  rcases hLater with ⟨i, hHandle, hBeyond⟩
  exact ⟨i, hLeads.handle hHandle, hBeyond⟩

theorem IsLater.of_leadsTo_left
    (hLater : next.IsLater last h)
    (hLeads : store.LeadsTo next) : store.IsLater last h := by
  rcases hLater with ⟨i, hHandle, hBeyond⟩
  exact ⟨i, hHandle, Nat.le_trans hLeads.cells hBeyond⟩

/- A new cell is later than all that there were. -/
theorem isLater_add (store : Store α) (cell : Cell α) :
    store.IsLater (store.add cell) store.handles.length :=
  ⟨store.cells.length, List.getElem?_concat_length,
    Nat.le_refl _⟩

/- Reading changes neither handles nor the number of cells. -/
theorem force_keeps (store : Store α) (i : Nat) :
    (store.force i).1.handles = store.handles ∧
      (store.force i).1.cells.length = store.cells.length := by
  fun_induction force store i <;> simp_all [settle]

theorem read_keeps (store : Store α) (h : Nat) :
    (store.read h).1.handles = store.handles ∧
      (store.read h).1.cells.length = store.cells.length := by
  unfold read
  split
  · exact store.force_keeps _
  · exact ⟨rfl, rfl⟩

end Store

------------------------------------------------------------
-- Stores That Arise
------------------------------------------------------------

variable [Inhabited α]

namespace History

theorem length_handles (history : History α n) :
    history.store.handles.length = n := by
  rcases history.exists_kept with ⟨held, hKept⟩
  exact hKept.built.length

/- A handle reads as its value without delay. -/
theorem read_eq (history : History α n) (h : Nat) :
    (history.store.read h).2 = history.values[h]? := by
  rcases history.exists_kept with ⟨held, hKept⟩
  by_cases hInside : h < n
  · rw [(hKept.read hInside).1,
      Vector.getElem?_eq_getElem hInside]
  · have hNone : history.store.handles[h]? = none := by
      rw [List.getElem?_eq_none_iff, history.length_handles]
      omega
    rw [Store.read, hNone]
    exact (Vector.getElem?_eq_none (by omega)).symm

end History

namespace Store

variable {store next : Store α} {value : α} {h : Nat}

/- A store that operations lead to. -/
def Arises (store : Store α) : Prop :=
  ∃ n, ∃ history : History α n, history.store = store

/- A store with one more handle, which reads as a value. -/
structure Makes
    (store next : Store α)
    (value : α) : Prop where
  arises : next.Arises
  leads : store.LeadsTo next
  reads : (next.read store.handles.length).2 = some value

/- An operation that makes a handle of a value. -/
theorem Makes.of_histories
    {past : History α n}
    {history : History α (n + 1)}
    (hHandles : past.store.handles <+: history.store.handles)
    (hCells :
      past.store.cells.length ≤ history.store.cells.length)
    (hValues : history.values = past.values.push value) :
    past.store.Makes history.store value := by
  refine ⟨⟨_, history, rfl⟩, ⟨hHandles, hCells, ?_⟩, ?_⟩
  · intro h other hRead
    rw [past.read_eq] at hRead
    have hInside := (Vector.getElem?_eq_some_iff.1 hRead).1
    rw [history.read_eq, hValues, Vector.getElem?_push,
      if_neg (Nat.ne_of_lt hInside), hRead]
  · rw [history.read_eq, hValues, past.length_handles,
      Vector.getElem?_push, if_pos rfl]

/- An operation that adds a cell. -/
theorem Makes.of_add
    {past : History α n}
    {history : History α (n + 1)}
    {cell : Cell α}
    (hStore : history.store = past.store.add cell)
    (hValues : history.values = past.values.push value) :
    past.store.Makes history.store value := by
  apply Makes.of_histories _ _ hValues
  · rw [hStore]
    exact List.prefix_append _ _
  · rw [hStore, add, List.length_append]
    exact Nat.le_add_right _ _

namespace Arises

theorem empty : (empty : Store α).Arises :=
  ⟨0, .start, rfl⟩

theorem ready
    (hArises : store.Arises)
    (value : α) : store.Makes (store.ready value) value := by
  rcases hArises with ⟨n, past, rfl⟩
  exact @Makes.of_add _ _ _ _ past (past.ready value) _ rfl rfl

theorem produce
    (hArises : store.Arises)
    (value : α) : store.Makes (store.produce value) value := by
  rcases hArises with ⟨n, past, rfl⟩
  exact @Makes.of_add _ _ _ _ past (past.produce value) _ rfl rfl

/- What reads as a value is a handle, and has a cell. -/
theorem exists_source
    {past : History α n}
    (hRead : (past.store.read h).2 = some value) :
    ∃ source : Fin n, ∃ i, source.val = h ∧
      past.values.get source = value ∧
      past.store.handles[h]? = some i := by
  rw [past.read_eq] at hRead
  rcases Vector.getElem?_eq_some_iff.1 hRead with
    ⟨hInside, hValue⟩
  have hHandle : h < past.store.handles.length := by
    rw [past.length_handles]
    exact hInside
  exact
    ⟨⟨h, hInside⟩, _, rfl, hValue,
      List.getElem?_eq_getElem hHandle⟩

theorem map
    (hArises : store.Arises)
    (hRead : (store.read h).2 = some value)
    (f : α → α) :
    store.Makes (store.map h f) (f value) ∧
      store.IsLater (store.map h f) store.handles.length := by
  rcases hArises with ⟨n, past, rfl⟩
  rcases exists_source hRead with
    ⟨source, i, rfl, rfl, hHandle⟩
  have hAdd : past.store.map source f =
      past.store.add ⟨.mapped i f, none, 0⟩ := by
    rw [Store.map, hHandle]
  constructor
  · exact @Makes.of_add _ _ _ _ past (past.map source f) _
      hAdd rfl
  · rw [hAdd]
    exact isLater_add _ _

theorem share
    (hArises : store.Arises)
    (hRead : (store.read h).2 = some value) :
    store.Makes (store.share h) value ∧
      (store.share h).same h store.handles.length = true := by
  rcases hArises with ⟨n, past, rfl⟩
  rcases exists_source hRead with
    ⟨source, i, rfl, rfl, hHandle⟩
  have hShare : past.store.share source =
      ⟨past.store.cells, past.store.handles ++ [i]⟩ := by
    rw [Store.share, hHandle]
  constructor
  · apply @Makes.of_histories _ _ _ _ past (past.share source)
    · rw [History.store, hShare]
      exact List.prefix_append _ _
    · exact Nat.le_of_eq
        (congrArg (fun next => next.cells.length) hShare.symm)
    · rfl
  · rw [hShare]
    exact same_eq_true_iff.2
      ⟨i, getElem?_append_of_eq_some hHandle,
        List.getElem?_concat_length⟩

/- Whatever is read, all handles read as before. -/
theorem read
    (hArises : store.Arises)
    (h : Nat) :
    (store.read h).1.Arises ∧
      store.LeadsTo (store.read h).1 := by
  rcases hArises with ⟨n, past, rfl⟩
  by_cases hInside : h < n
  · refine ⟨⟨n, past.read ⟨h, hInside⟩, rfl⟩, ?_⟩
    rcases past.store.read_keeps h with ⟨hHandles, hCells⟩
    refine ⟨⟨[], ?_⟩, Nat.le_of_eq hCells.symm, ?_⟩
    · rw [List.append_nil, hHandles]
    · intro k value hRead
      rw [past.read_eq] at hRead
      exact ((past.read ⟨h, hInside⟩).read_eq k).trans hRead
  · have hNone : past.store.handles[h]? = none := by
      rw [List.getElem?_eq_none_iff, past.length_handles]
      omega
    have hSelf : past.store.read h = (past.store, none) := by
      rw [Store.read, hNone]
    rw [hSelf]
    exact ⟨⟨n, past, rfl⟩, .refl _⟩

theorem cell_lt
    {i : Nat}
    (hArises : store.Arises)
    (hHandle : store.handles[h]? = some i) :
    i < store.cells.length := by
  rcases hArises with ⟨n, history, rfl⟩
  rcases history.exists_kept with ⟨held, hKept⟩
  rw [← length_sources]
  exact hKept.built.cell_lt hHandle

end Arises

/- A later cell is not that of a handle that there was. -/
theorem IsLater.not_same
    {own : Nat}
    (hLater : store.IsLater next own)
    (hArises : store.Arises)
    (hLeads : store.LeadsTo next)
    (hHandle : h < store.handles.length) :
    next.same h own = false := by
  rw [Bool.eq_false_iff]
  intro hSame
  have hCell := List.getElem?_eq_getElem hHandle
  have hBefore := hArises.cell_lt hCell
  rcases hLater with ⟨i, hOwn, hBeyond⟩
  rcases same_eq_true_iff.1 hSame with ⟨j, hOld, hNew⟩
  rw [hOwn] at hNew
  rw [hLeads.handle hCell] at hOld
  cases hNew
  cases hOld
  omega

end Store

end Deferred

end GraphQL
