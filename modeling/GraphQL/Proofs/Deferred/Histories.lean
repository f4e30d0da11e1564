import GraphQL.Proofs.Deferred.Handles

/-
  Histories of deferred values.

  A history is a sequence of operations over a growing list of
  handles. After any history, a producer or a function has run
  if and only if something that comes of it was read, it has run
  once, and a handle reads as if nothing had been delayed.

  Key definitions include:
    * `Deferred.History`: operations, in the scope of handles
    * `Deferred.Reached`: the cells that reads ask for
    * `Deferred.Kept`: what holds after every history

  Main declarations:
    * `Deferred.History.exists_kept`
    * `Deferred.History.delays_and_shares`
-/

------------------------------------------------------------
-- Histories
------------------------------------------------------------

namespace GraphQL

namespace Deferred

variable {α : Type} {n : Nat}

/- Operations that lead to a number of handles. -/
inductive History (α : Type) : Nat → Type where
  | start : History α 0
  | produce
      {n : Nat}
      (past : History α n) (value : α) : History α (n + 1)
  | ready
      {n : Nat}
      (past : History α n) (value : α) : History α (n + 1)
  | default
      {n : Nat}
      (past : History α n) : History α (n + 1)
  | map
      {n : Nat}
      (past : History α n) (source : Fin n) (f : α → α) :
      History α (n + 1)
  | share
      {n : Nat}
      (past : History α n) (source : Fin n) :
      History α (n + 1)
  | read
      {n : Nat}
      (past : History α n) (handle : Fin n) : History α n
  | same
      {n : Nat}
      (past : History α n) (first second : Fin n) :
      History α n

namespace History

/- How the handles of a history came about. -/
def origins {n : Nat} : History α n → Vector Origin n
  | .start => #v[]
  | .produce past _ => past.origins.push .produced
  | .ready past _ => past.origins.push .ready
  | .default past => past.origins.push .ready
  | .map past source _ =>
      past.origins.push (.mapped source)
  | .share past source =>
      past.origins.push (.shared source)
  | .read past _ => past.origins
  | .same past _ _ => past.origins

/- Whether a handle was read. -/
def Reads {n : Nat} : History α n → Nat → Prop
  | .start, _ => False
  | .produce past _, h => past.Reads h
  | .ready past _, h => past.Reads h
  | .default past, h => past.Reads h
  | .map past _ _, h => past.Reads h
  | .share past _, h => past.Reads h
  | .read past handle, h => past.Reads h ∨ h = handle
  | .same past _ _, h => past.Reads h

variable [Inhabited α]

/- The values of the handles, without delay. -/
def values {n : Nat} : History α n → Vector α n
  | .start => #v[]
  | .produce past value => past.values.push value
  | .ready past value => past.values.push value
  | .default past => past.values.push Inhabited.default
  | .map past source f =>
      past.values.push (f past.values[source])
  | .share past source =>
      past.values.push past.values[source]
  | .read past _ => past.values
  | .same past _ _ => past.values

/- The store after a history. -/
def store {n : Nat} : History α n → Store α
  | .start => .empty
  | .produce past value => past.store.produce value
  | .ready past value => past.store.ready value
  | .default past => past.store.ready Inhabited.default
  | .map past source f => past.store.map source f
  | .share past source => past.store.share source
  | .read past handle => (past.store.read handle).1
  | .same past _ _ => past.store

end History

------------------------------------------------------------
-- Cells That Are Reached
------------------------------------------------------------

variable {handles : List Nat} {sources : List (Source α)}
variable {origins : Vector Origin n} {values : Vector α n}
variable {held : List α} {Read : Nat → Prop}
variable {c h i k : Nat} {value : α}

/- The cells that have to run for the handles that were read. -/
def Reached
    (handles : List Nat) (sources : List (Source α))
    (Read : Nat → Prop) (c : Nat) : Prop :=
  ∃ h i, Read h ∧ handles[h]? = some i ∧
    Store.Needs sources c i

theorem Store.Needs.append
    {others : List (Source α)}
    (hNeeds : Store.Needs sources c i) :
    Store.Needs (sources ++ others) c i := by
  induction hNeeds with
  | self => exact .self _
  | source hSource _ ih =>
      exact .source (getElem?_append_of_eq_some hSource) ih

theorem Store.Needs.of_append
    {others : List (Source α)}
    (hNeeds : Store.Needs (sources ++ others) c i)
    (hValued : Store.Valued sources held)
    (hInside : i < sources.length) :
    Store.Needs sources c i := by
  induction hNeeds with
  | self => exact .self _
  | source hSource _ ih =>
      rw [List.getElem?_append_left hInside] at hSource
      have hBefore := (hValued.mapped hSource).1
      exact
        .source hSource
          (ih (Nat.lt_trans hBefore hInside))

/- New cells and handles are not reached from old ones. -/
theorem Built.reached_append_iff
    {more : List Nat}
    {others : List (Source α)}
    (hBuilt : Built handles sources origins values held)
    (hReads : ∀ h, Read h → h < n) :
    Reached handles sources Read c ↔
      Reached (handles ++ more) (sources ++ others) Read
        c := by
  constructor
  · intro hReached
    rcases hReached with ⟨h, i, hRead, hHandle, hNeeds⟩
    exact
      ⟨h, i, hRead, getElem?_append_of_eq_some hHandle,
        hNeeds.append⟩
  · intro hReached
    rcases hReached with ⟨h, i, hRead, hHandle, hNeeds⟩
    have hInside := hReads h hRead
    rw [← hBuilt.length] at hInside
    rw [List.getElem?_append_left hInside] at hHandle
    exact
      ⟨h, i, hRead, hHandle,
        hNeeds.of_append hBuilt.valued
          (hBuilt.cell_lt hHandle)⟩

theorem Built.lt_of_reached
    (hBuilt : Built handles sources origins values held)
    (hReached : Reached handles sources Read c) :
    c < sources.length := by
  rcases hReached with ⟨h, i, _, hHandle, hNeeds⟩
  exact
    Nat.lt_of_le_of_lt (hNeeds.le hBuilt.valued)
      (hBuilt.cell_lt hHandle)

namespace Store

variable {store : Store α} {cell : Cell α}

@[simp] theorem add_sources :
    (store.add cell).sources =
      store.sources ++ [cell.source] := by
  rw [sources, add, List.map_append]
  rfl

@[simp] theorem length_sources :
    store.sources.length = store.cells.length :=
  List.length_map _

end Store

/- A new cell that does not have to run. -/
theorem Store.Noted.add
    {store : Store α}
    {cell : Cell α}
    {Ran : Nat → Prop}
    (hNoted : store.Noted held Ran)
    (hValued : Store.Valued store.sources held)
    (hRan : ∀ c, Ran c → c < store.sources.length)
    (hNotes : cell.Notes (some value) False) :
    (store.add cell).Noted (held ++ [value]) Ran := by
  have hLength := hValued.length
  rw [Store.length_sources] at hLength
  constructor
  · intro i other hOther
    by_cases hHere : i = store.cells.length
    · rw [hHere, Store.add,
        List.getElem?_concat_length] at hOther
      rw [hHere, ← hLength, List.getElem?_concat_length,
        ← Option.some.inj hOther]
      apply hNotes.congr
      constructor
      · exact False.elim
      · intro hNow
        have hInside := hRan _ hNow
        rw [Store.length_sources] at hInside
        omega
    · have hOld := getElem?_concat_of_ne hOther hHere
      have hInside := (List.getElem?_eq_some_iff.mp hOld).1
      rw [← hLength] at hInside
      rw [List.getElem?_append_left hInside]
      exact hNoted.notes i other hOld
  · intro c i hNow hNeeds
    rw [Store.add_sources] at hNeeds
    exact
      hNoted.closed c i hNow
        (hNeeds.of_append hValued (hRan i hNow))

------------------------------------------------------------
-- What Histories Keep
------------------------------------------------------------

/- A store after a history, and the values of its cells. -/
structure Kept
    (store : Store α) (origins : Vector Origin n)
    (values : Vector α n) (Read : Nat → Prop)
    (held : List α) :
    Prop where
  built :
    Built store.handles store.sources origins values held
  reads : ∀ h, Read h → h < n
  noted :
    store.Noted held
      (Reached store.handles store.sources Read)

variable {store : Store α}

/- A handle to a new cell. -/
theorem Kept.add
    {cell : Cell α}
    {origin : Origin}
    (hKept : Kept store origins values Read held)
    (hGives : cell.source.Gives held value)
    (hFits : ∀ i : Nat,
      (store.add cell).handles[n]? = some i →
      (store.add cell).sources[i]? = some cell.source →
      origin.Fits (store.add cell).handles
        (store.add cell).sources n)
    (hNotes : cell.Notes (some value) False) :
    Kept (store.add cell) (origins.push origin)
      (values.push value) Read (held ++ [value]) := by
  have hBuilt := hKept.built
  have hLength := hBuilt.valued.length
  rw [Store.length_sources] at hLength
  have hHandle :
      (store.add cell).handles[n]? =
        some store.cells.length := by
    rw [← hBuilt.length]
    exact List.getElem?_concat_length
  have hSource :
      (store.add cell).sources[store.cells.length]? =
        some cell.source := by
    rw [Store.add_sources, ← Store.length_sources]
    exact List.getElem?_concat_length
  have hFits := hFits _ hHandle hSource
  constructor
  · rw [Store.add_sources] at hFits ⊢
    apply hBuilt.extend (hBuilt.valued.append hGives)
    · rw [← hLength]
      exact List.getElem?_concat_length
    · exact hFits
    · intro _
      exact Nat.le_of_eq Store.length_sources
  · intro h hRead
    exact Nat.lt_succ_of_lt (hKept.reads h hRead)
  · rw [Store.add_sources]
    have hNoted :=
      hKept.noted.add hBuilt.valued
        (fun c => hBuilt.lt_of_reached) hNotes
    exact
      hNoted.congr fun c =>
        hBuilt.reached_append_iff hKept.reads

/- Another handle to a cell. -/
theorem Kept.share
    (hKept : Kept store origins values Read held)
    (hSource : h < n) :
    Kept (store.share h) (origins.push (.shared h))
      (values.push values[h]) Read held := by
  have hBuilt := hKept.built
  rcases hBuilt.exists_handle hSource with ⟨i, hHandle⟩
  have hHeld := hBuilt.known h i hHandle
  rw [Vector.getElem?_eq_getElem hSource] at hHeld
  have hStore :
      store.share h =
        { store with handles := store.handles ++ [i] } := by
    rw [Store.share, hHandle]
  have hValued :
      Store.Valued (store.sources ++ []) (held ++ []) := by
    rw [List.append_nil, List.append_nil]
    exact hBuilt.valued
  have hFits :
      (Origin.shared h).Fits (store.handles ++ [i])
        (store.sources ++ []) n := by
    refine ⟨hSource, i, ?_, getElem?_append_of_eq_some hHandle⟩
    rw [← hBuilt.length]
    exact List.getElem?_concat_length
  have hExtended :=
    hBuilt.extend hValued (getElem?_append_of_eq_some hHeld)
      hFits False.elim
  have hSame :
      ∀ c, Reached store.handles store.sources Read c ↔
        Reached (store.handles ++ [i]) (store.sources ++ [])
          Read c :=
    fun c => hBuilt.reached_append_iff hKept.reads
  rw [List.append_nil] at hSame
  rw [List.append_nil, List.append_nil] at hExtended
  have hNoted := hKept.noted.congr hSame
  rw [hStore]
  constructor
  · exact hExtended
  · intro k hRead
    exact Nat.lt_succ_of_lt (hKept.reads k hRead)
  · exact ⟨hNoted.notes, hNoted.closed⟩

theorem reached_or_iff
    (hHandle : handles[h]? = some i) :
    Reached handles sources Read c ∨
        Store.Needs sources c i ↔
      Reached handles sources (fun k => Read k ∨ k = h)
        c := by
  constructor
  · intro hEither
    rcases hEither with hReached | hNeeds
    · rcases hReached with ⟨k, j, hRead, hOther, hNeeds⟩
      exact ⟨k, j, .inl hRead, hOther, hNeeds⟩
    · exact ⟨h, i, .inr rfl, hHandle, hNeeds⟩
  · intro hReached
    rcases hReached with ⟨k, j, hEither, hOther, hNeeds⟩
    rcases hEither with hRead | hSame
    · exact .inl ⟨k, j, hRead, hOther, hNeeds⟩
    · rw [hSame, hHandle] at hOther
      rw [← Option.some.inj hOther] at hNeeds
      exact .inr hNeeds

/- A handle reads as its value, and counts as read. -/
theorem Kept.read
    (hKept : Kept store origins values Read held)
    (hInside : h < n) :
    (store.read h).2 = some values[h] ∧
      Kept (store.read h).1 origins values
        (fun k => Read k ∨ k = h) held := by
  have hBuilt := hKept.built
  rcases hBuilt.exists_handle hInside with ⟨i, hHandle⟩
  have hHeld := hBuilt.known h i hHandle
  rw [Vector.getElem?_eq_getElem hInside] at hHeld
  have hCell := hBuilt.cell_lt hHandle
  rw [Store.length_sources] at hCell
  rcases hKept.noted.exists_forces hBuilt.valued hCell with
    ⟨next, value, hForces⟩
  have hRead : store.read h = (next, some value) := by
    rw [Store.read, hHandle]
    exact hForces.force
  rw [hRead]
  constructor
  · rw [← hHeld, hForces.value]
  · constructor
    · rw [hForces.handles, hForces.sources]
      exact hBuilt
    · intro k hEither
      rcases hEither with hOld | hSame
      · exact hKept.reads k hOld
      · rw [hSame]
        exact hInside
    · rw [hForces.handles, hForces.sources]
      exact
        hForces.noted.congr fun c => reached_or_iff hHandle

/- A store without handles. -/
theorem Kept.empty :
    Kept (.empty : Store α) #v[] #v[] (fun _ => False)
      [] := by
  constructor
  · constructor
    · rfl
    · constructor
      · rfl
      · intro i source hSource
        cases hSource
    · intro h i hHandle
      cases hHandle
    · intro h origin hOrigin
      cases hOrigin
    · intro h k i _ _ hHandle
      cases hHandle
  · intro h hRead
    exact hRead.elim
  · constructor
    · intro i cell hCell
      cases hCell
    · intro c i hReached
      rcases hReached with ⟨_, _, hRead, _⟩
      exact hRead.elim

/- A handle to what a function makes of another. -/
theorem Kept.map
    {f : α → α}
    (hKept : Kept store origins values Read held)
    (hInside : h < n) :
    Kept (store.map h f) (origins.push (.mapped h))
      (values.push (f values[h])) Read
      (held ++ [f values[h]]) := by
  rcases hKept.built.exists_handle hInside with ⟨i, hHandle⟩
  have hHeld := hKept.built.known h i hHandle
  rw [Vector.getElem?_eq_getElem hInside] at hHeld
  rw [Store.map, hHandle]
  apply hKept.add
  · exact ⟨values[h], hHeld, rfl⟩
  · intro j hOwn hSource
    exact
      ⟨j, i, f, hOwn, getElem?_append_of_eq_some hHandle,
        hSource⟩
  · exact .of_delayed not_false

/- After every history there are values that the cells hold. -/
theorem History.exists_kept
    [Inhabited α]
    (history : History α n) :
    ∃ held,
      Kept history.store history.origins history.values
        history.Reads held := by
  induction history with
  | start => exact ⟨[], .empty⟩
  | produce past value ih =>
      rcases ih with ⟨held, hKept⟩
      refine ⟨held ++ [value], hKept.add rfl ?_ ?_⟩
      · exact fun i hHandle hSource =>
          ⟨i, value, hHandle, hSource⟩
      · exact .of_delayed not_false
  | ready past value ih =>
      rcases ih with ⟨held, hKept⟩
      refine ⟨held ++ [value], hKept.add rfl ?_ .of_ready⟩
      exact fun i hHandle hSource =>
        ⟨i, value, hHandle, hSource⟩
  | default past ih =>
      rcases ih with ⟨held, hKept⟩
      refine
        ⟨held ++ [Inhabited.default],
          hKept.add rfl ?_ .of_ready⟩
      exact fun i hHandle hSource =>
        ⟨i, Inhabited.default, hHandle, hSource⟩
  | map past source f ih =>
      rcases ih with ⟨held, hKept⟩
      exact ⟨_, hKept.map source.isLt⟩
  | share past source ih =>
      rcases ih with ⟨held, hKept⟩
      exact ⟨held, hKept.share source.isLt⟩
  | read past handle ih =>
      rcases ih with ⟨held, hKept⟩
      exact ⟨held, (hKept.read handle.isLt).2⟩
  | same past first second ih => exact ih

------------------------------------------------------------
-- What Has Run
------------------------------------------------------------

/- A cell has to run for the reads that depend on it. -/
theorem Kept.reached_iff
    (hKept : Kept store origins values Read held)
    (hConstructs : Constructs origins h)
    (hHandle : store.handles[h]? = some i) :
    Reached store.handles store.sources Read i ↔
      ∃ k, Read k ∧ Derives origins h k := by
  have hBuilt := hKept.built
  constructor
  · intro hReached
    rcases hReached with ⟨k, j, hRead, hOther, hNeeds⟩
    exact
      ⟨k, hRead,
        hBuilt.derives_of_needs hNeeds hConstructs hHandle
          hOther⟩
  · intro hExists
    rcases hExists with ⟨k, hRead, hDerives⟩
    rcases hBuilt.exists_handle (hKept.reads k hRead) with
      ⟨j, hOther⟩
    exact
      ⟨k, j, hRead, hOther,
        hDerives.needs hBuilt hHandle hOther⟩

theorem Store.runs_of_cell
    {cell : Cell α}
    (hHandle : store.handles[h]? = some i)
    (hCell : store.cells[i]? = some cell) :
    store.runs[h]? = some cell.runs := by
  rw [Store.runs, List.getElem?_map, hHandle,
    Option.map_some, hCell]

/- A delayed value is one that is not at hand. -/
theorem Built.exists_delayed
    {origin : Origin}
    (hBuilt : Built handles sources origins values held)
    (hOrigin : origins[h]? = some origin)
    (hDelayed : origin.IsDelayed) :
    ∃ i source, handles[h]? = some i ∧
      sources[i]? = some source ∧ ¬ source.IsReady := by
  have hFits := hBuilt.fits h origin hOrigin
  cases origin with
  | produced =>
      rcases hFits with ⟨i, value, hHandle, hSource⟩
      exact ⟨i, _, hHandle, hSource, not_false⟩
  | ready => exact absurd hDelayed not_false
  | mapped k =>
      rcases hFits with ⟨i, j, f, hHandle, _, hSource⟩
      exact ⟨i, _, hHandle, hSource, not_false⟩
  | shared k => exact absurd hDelayed not_false

theorem Origin.IsDelayed.isConstruction
    {origin : Origin}
    (hDelayed : origin.IsDelayed) :
    origin.IsConstruction := by
  cases origin with
  | produced => trivial
  | ready => trivial
  | mapped k => trivial
  | shared k => exact hDelayed

theorem Kept.runs_iff
    {origin : Origin}
    (hKept : Kept store origins values Read held)
    (hOrigin : origins[h]? = some origin)
    (hDelayed : origin.IsDelayed) :
    store.runs[h]? = some 1 ↔
      ∃ k, Read k ∧ Derives origins h k := by
  rcases hKept.built.exists_delayed hOrigin hDelayed with
    ⟨i, source, hHandle, hSource, hReady⟩
  rcases Store.cell_of_sources hSource with
    ⟨cell, hCell, hSame⟩
  rw [← hSame] at hReady
  have hNotes := hKept.noted.notes i cell hCell
  have hConstructs : Constructs origins h :=
    ⟨origin, hOrigin, hDelayed.isConstruction⟩
  rw [← hKept.reached_iff hConstructs hHandle,
    Store.runs_of_cell hHandle hCell]
  constructor
  · intro hOnce
    by_contra hNot
    rw [(hNotes.waits hReady hNot).2] at hOnce
    cases hOnce
  · intro hReached
    rw [(hNotes.ran hReady hReached).2]

theorem Kept.same_iff
    {a b : Nat}
    (hKept : Kept store origins values Read held)
    (hFirst : a < n)
    (hSecond : b < n) :
    store.same a b = true ↔
      ∃ c, Constructs origins c ∧ Clones origins c a ∧
        Clones origins c b := by
  rcases hKept.built.exists_handle hFirst with ⟨i, hHandle⟩
  rcases hKept.built.exists_handle hSecond with ⟨j, hOther⟩
  rw [← hKept.built.same_cell_iff hHandle hOther, Store.same,
    hHandle, hOther]
  exact beq_iff_eq

/-
  After every history each cell has run at most once. A value
  that was left for later has been made if and only if it was
  read, or something that comes of it by clones and functions.
  Every handle reads as its value without delay, and two
  handles are the same if and only if both are clones of one
  that was made by itself.
-/
theorem History.delays_and_shares
    [Inhabited α]
    (history : History α n) :
    (∀ cell ∈ history.store.cells, cell.runs ≤ 1) ∧
      (∀ h : Fin n, history.origins[h].IsDelayed →
        (history.store.runs[h.val]? = some 1 ↔
          ∃ k, history.Reads k ∧
            Derives history.origins h k)) ∧
      (∀ h : Fin n,
        (history.store.read h).2 =
          some history.values[h]) ∧
      ∀ a b : Fin n,
        history.store.same a b = true ↔
          ∃ c, Constructs history.origins c ∧
            Clones history.origins c a ∧
            Clones history.origins c b := by
  rcases history.exists_kept with ⟨held, hKept⟩
  refine ⟨?_, ?_, ?_, ?_⟩
  · intro cell hMember
    rcases List.getElem?_of_mem hMember with ⟨i, hCell⟩
    exact (hKept.noted.notes i cell hCell).runs_le_one
  · intro h hDelayed
    exact
      hKept.runs_iff (Vector.getElem?_eq_getElem h.isLt)
        hDelayed
  · intro h
    exact (hKept.read h.isLt).1
  · intro a b
    exact hKept.same_iff a.isLt b.isLt

/- A value, its successor, a clone of that, and one read. -/
def History.successor : History Nat 3 :=
  (((History.start.produce 5).map 0 (· + 1)).share 1).read 2

/- Reading a clone runs what it comes of. -/
theorem History.successor_runs_both :
    History.successor.store.runs[0]? = some 1 ∧
      History.successor.store.runs[1]? = some 1 := by
  have hLaws := History.delays_and_shares History.successor
  constructor
  · apply (hLaws.2.1 0 trivial).mpr
    exact ⟨2, .inr rfl, .share rfl (.map rfl (.self 0))⟩
  · apply (hLaws.2.1 1 trivial).mpr
    exact ⟨2, .inr rfl, .share rfl (.self 1)⟩

end Deferred

end GraphQL
