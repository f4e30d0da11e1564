import GraphQL.Deferred
import Mathlib.Tactic.Common

/-
  What reading a cell does to a store.

  Reading a cell runs the cells that it is made from, as far as
  they have not run, and no others. A cell that has run holds
  its value and has run once. What has run is closed under going
  to the source, so a cell that has run needs nothing more.

  Key definitions include:
    * `Deferred.Store.Needs`: the cells behind a cell
    * `Deferred.Store.Valued`: values without delay
    * `Deferred.Store.Noted`: what cells hold once some have run
    * `Deferred.Store.Forces`: what reading a cell leads to

  Main declarations:
    * `Deferred.Store.Noted.exists_forces`
-/

------------------------------------------------------------
-- Cells
------------------------------------------------------------

namespace GraphQL

namespace Deferred

variable {α : Type}

/- Whether the value is at hand from the start. -/
def Source.IsReady : Source α → Prop
  | .ready _ => True
  | .produced _ => False
  | .mapped _ _ => False

/- The value that comes of a source, given those before it. -/
def Source.Gives
    (values : List α) (value : α) : Source α → Prop
  | .ready known => known = value
  | .produced made => made = value
  | .mapped j f =>
      ∃ argument, values[j]? = some argument ∧
        f argument = value

/-
  What a cell holds, by whether it has run. A value that was at
  hand is known without a run.
-/
structure Cell.Notes
    (cell : Cell α) (value? : Option α) (Ran : Prop) :
    Prop where
  ready : cell.source.IsReady →
    cell.cached = value? ∧ cell.runs = 0
  ran : ¬ cell.source.IsReady → Ran →
    cell.cached = value? ∧ cell.runs = 1
  waits : ¬ cell.source.IsReady → ¬ Ran →
    cell.cached = none ∧ cell.runs = 0

theorem Cell.Notes.congr
    {cell : Cell α}
    {value? : Option α}
    {Ran Other : Prop}
    (h : cell.Notes value? Ran)
    (hIff : Ran ↔ Other) :
    cell.Notes value? Other := by
  rw [← propext hIff]
  exact h

/- A new cell whose value is left for later. -/
theorem Cell.Notes.of_delayed
    {source : Source α}
    {value? : Option α}
    (hReady : ¬ source.IsReady) :
    Cell.Notes ⟨source, none, 0⟩ value? False := by
  constructor
  · intro hNow
    exact absurd hNow hReady
  · intro _ hRan
    exact hRan.elim
  · intro _ _
    exact ⟨rfl, rfl⟩

/- A new cell whose value is at hand. -/
theorem Cell.Notes.of_ready
    {value : α} :
    Cell.Notes ⟨.ready value, some value, 0⟩ (some value)
      False := by
  constructor
  · intro _
    exact ⟨rfl, rfl⟩
  · intro hReady
    exact absurd trivial hReady
  · intro hReady
    exact absurd trivial hReady

/- A cell without its value neither was ready nor has run. -/
theorem Cell.Notes.waiting
    {cell : Cell α}
    {value : α}
    {Ran : Prop}
    (h : cell.Notes (some value) Ran)
    (hCached : cell.cached = none) :
    ¬ cell.source.IsReady ∧ ¬ Ran := by
  constructor
  · intro hReady
    rw [(h.ready hReady).1] at hCached
    cases hCached
  · intro hRan
    by_cases hReady : cell.source.IsReady
    · rw [(h.ready hReady).1] at hCached
      cases hCached
    · rw [(h.ran hReady hRan).1] at hCached
      cases hCached

/- A cell that holds something was ready or has run. -/
theorem Cell.Notes.known
    {cell : Cell α}
    {value : α}
    {value? : Option α}
    {Ran : Prop}
    (h : cell.Notes value? Ran)
    (hCached : cell.cached = some value) :
    value? = some value ∧ (cell.source.IsReady ∨ Ran) := by
  by_cases hReady : cell.source.IsReady
  · exact ⟨(h.ready hReady).1.symm.trans hCached, .inl hReady⟩
  · by_cases hRan : Ran
    · exact
        ⟨(h.ran hReady hRan).1.symm.trans hCached, .inr hRan⟩
    · rw [(h.waits hReady hRan).1] at hCached
      cases hCached

theorem Cell.Notes.runs_le_one
    {cell : Cell α}
    {value? : Option α}
    {Ran : Prop}
    (h : cell.Notes value? Ran) :
    cell.runs ≤ 1 := by
  by_cases hReady : cell.source.IsReady
  · rw [(h.ready hReady).2]
    exact Nat.zero_le 1
  · by_cases hRan : Ran
    · exact Nat.le_of_eq (h.ran hReady hRan).2
    · rw [(h.waits hReady hRan).2]
      exact Nat.zero_le 1

------------------------------------------------------------
-- Sources
------------------------------------------------------------

namespace Store

variable {store next : Store α}
variable {origins : List (Source α)} {values : List α}
variable {Ran : Nat → Prop}
variable {b c i j : Nat} {value : α}

/- How the values of all cells come about. -/
def sources (store : Store α) : List (Source α) :=
  store.cells.map Cell.source

/- The cells behind a cell, from itself to the first source. -/
inductive Needs (origins : List (Source α)) :
    Nat → Nat → Prop where
  | self (i : Nat) : Needs origins i i
  | source
      {c i j : Nat}
      {f : α → α} :
      origins[i]? = some (.mapped j f) →
      Needs origins c j →
      Needs origins c i

/-
  Values of all cells, each from what was made before it. This
  is evaluation without delay.
-/
structure Valued
    (origins : List (Source α)) (values : List α) :
    Prop where
  length : values.length = origins.length
  gives : ∀ (i : Nat) (source : Source α),
    origins[i]? = some source →
    ∃ value, values[i]? = some value ∧
      source.Gives (values.take i) value

theorem Valued.produced
    (h : Valued origins values)
    (hSource : origins[i]? = some (.produced value)) :
    values[i]? = some value := by
  rcases h.gives i _ hSource with ⟨made, hMade, hGives⟩
  rw [hMade]
  exact congrArg some hGives.symm

theorem Valued.mapped
    {f : α → α}
    (h : Valued origins values)
    (hSource : origins[i]? = some (.mapped j f)) :
    j < i ∧ values[i]? = values[j]?.map f := by
  rcases h.gives i _ hSource with
    ⟨made, hMade, argument, hArgument, hGives⟩
  have hBefore : j < i := by
    have hInside := (List.getElem?_eq_some_iff.mp hArgument).1
    rw [List.length_take] at hInside
    omega
  rw [List.getElem?_take_of_lt hBefore] at hArgument
  rw [hMade, hArgument, Option.map_some, hGives]
  exact ⟨hBefore, rfl⟩

/- One more cell, made from those that are there. -/
theorem Valued.append
    {source : Source α}
    (h : Valued origins values)
    (hGives : source.Gives values value) :
    Valued (origins ++ [source]) (values ++ [value]) := by
  constructor
  · rw [List.length_append, List.length_append, h.length]
    rfl
  · intro i other hOther
    rcases Nat.lt_trichotomy i origins.length with
      hOld | hNew | hBeyond
    · rw [List.getElem?_append_left hOld] at hOther
      rw [← h.length] at hOld
      rw [List.getElem?_append_left hOld,
        List.take_append_of_le_length (Nat.le_of_lt hOld)]
      exact h.gives i other hOther
    · rw [hNew, List.getElem?_concat_length] at hOther
      rw [hNew, ← h.length, List.getElem?_concat_length,
        List.take_left, ← Option.some.inj hOther]
      exact ⟨value, rfl, hGives⟩
    · rw [List.getElem?_eq_none] at hOther
      · cases hOther
      · rw [List.length_append]
        exact hBeyond

theorem sources_of_cell
    {cell : Cell α}
    (h : store.cells[i]? = some cell) :
    store.sources[i]? = some cell.source := by
  rw [sources, List.getElem?_map, h, Option.map_some]

theorem cell_of_sources
    {source : Source α}
    (h : store.sources[i]? = some source) :
    ∃ cell, store.cells[i]? = some cell ∧
      cell.source = source := by
  rw [sources, List.getElem?_map] at h
  exact Option.map_eq_some_iff.mp h

/- What a cell needs was made before it. -/
theorem Needs.le
    (h : Needs origins c i)
    (hValued : Valued origins values) :
    c ≤ i := by
  induction h with
  | self => exact Nat.le_refl _
  | source hSource _ ih =>
      have hBefore := (hValued.mapped hSource).1
      omega

theorem Needs.trans
    (hFirst : Needs origins b c)
    (hSecond : Needs origins c i) :
    Needs origins b i := by
  induction hSecond with
  | self => exact hFirst
  | source hSource _ ih => exact .source hSource ih

/- A mapped cell needs itself and what its source needs. -/
theorem needs_mapped_iff
    {f : α → α}
    (hSource : origins[i]? = some (.mapped j f)) :
    Needs origins c i ↔ c = i ∨ Needs origins c j := by
  constructor
  · intro h
    cases h with
    | self => exact .inl rfl
    | source hOther hRest =>
        rw [hSource] at hOther
        cases hOther
        exact .inr hRest
  · intro h
    rcases h with hSelf | hRest
    · rw [hSelf]
      exact .self i
    · exact .source hSource hRest

/- Any other cell needs itself alone. -/
theorem needs_iff_eq
    {cell : Cell α}
    (hCell : store.cells[i]? = some cell)
    (hKind : ∀ j f, cell.source ≠ .mapped j f) :
    Needs store.sources c i ↔ c = i := by
  constructor
  · intro h
    cases h with
    | self => rfl
    | source hSource _ =>
        rw [sources_of_cell hCell] at hSource
        exact absurd (Option.some.inj hSource) (hKind _ _)
  · intro hSelf
    rw [hSelf]
    exact .self i

------------------------------------------------------------
-- Cells That Have Run
------------------------------------------------------------

/- Every cell holds what it should, with the cells behind it. -/
structure Noted
    (store : Store α) (values : List α) (Ran : Nat → Prop) :
    Prop where
  notes : ∀ (i : Nat) (cell : Cell α),
    store.cells[i]? = some cell →
    cell.Notes values[i]? (Ran i)
  closed : ∀ c i, Ran i → Needs store.sources c i → Ran c

theorem Noted.congr
    {Other : Nat → Prop}
    (h : store.Noted values Ran)
    (hIff : ∀ c, Ran c ↔ Other c) :
    store.Noted values Other := by
  constructor
  · intro i cell hCell
    exact (h.notes i cell hCell).congr (hIff i)
  · intro c i hOther hNeeds
    rw [← hIff] at hOther ⊢
    exact h.closed c i hOther hNeeds

/- There is nothing behind a cell that was ready. -/
theorem Noted.reach_ready
    {cell : Cell α}
    (h : store.Noted values Ran)
    (hCell : store.cells[i]? = some cell)
    (hReady : cell.source.IsReady) :
    store.Noted values
      (fun c => Ran c ∨ Needs store.sources c i) := by
  have hAlone :
      ∀ c, Needs store.sources c i ↔ c = i := by
    intro c
    apply needs_iff_eq hCell
    intro j f hMapped
    rw [hMapped] at hReady
    exact hReady
  constructor
  · intro c other hOther
    by_cases hHere : c = i
    · rw [hHere, hCell] at hOther
      cases hOther
      rw [hHere]
      exact
        ⟨(h.notes i cell hCell).ready,
          fun hNot => absurd hReady hNot,
          fun hNot => absurd hReady hNot⟩
    · apply (h.notes c other hOther).congr
      constructor
      · exact .inl
      · intro hReached
        rcases hReached with hRan | hNeeds
        · exact hRan
        · exact absurd ((hAlone c).mp hNeeds) hHere
  · intro c k hReached hNeeds
    rcases hReached with hRan | hBehind
    · exact .inl (h.closed c k hRan hNeeds)
    · exact .inr (hNeeds.trans hBehind)

/- What is behind a cell that has run has run before. -/
theorem Noted.reach_ran
    (h : store.Noted values Ran)
    (hRan : Ran i) :
    store.Noted values
      (fun c => Ran c ∨ Needs store.sources c i) := by
  apply h.congr
  intro c
  constructor
  · exact .inl
  · intro hReached
    rcases hReached with hBefore | hNeeds
    · exact hBefore
    · exact h.closed c i hRan hNeeds

------------------------------------------------------------
-- Running One Cell
------------------------------------------------------------

@[simp] theorem settle_handles :
    (store.settle i value).handles = store.handles :=
  rfl

@[simp] theorem settle_sources :
    (store.settle i value).sources = store.sources := by
  apply List.ext_getElem?
  intro c
  simp only [sources, settle, List.getElem?_map,
    List.getElem?_modify]
  split <;> cases store.cells[c]? <;> rfl

/- A cell runs once the cells behind it have run. -/
theorem Noted.settle
    {cell : Cell α}
    (h : store.Noted values Ran)
    (hCell : store.cells[i]? = some cell)
    (hReady : ¬ cell.source.IsReady)
    (hRan : ¬ Ran i)
    (hValue : values[i]? = some value)
    (hBehind :
      ∀ c, Needs store.sources c i → Ran c ∨ c = i) :
    (store.settle i value).Noted values
      (fun c => Ran c ∨ c = i) := by
  constructor
  · intro c other hOther
    simp only [Store.settle, List.getElem?_modify] at hOther
    by_cases hHere : i = c
    · rw [← hHere, hCell] at hOther
      simp only [if_true] at hOther
      cases hOther
      rw [← hHere]
      have hWaits := (h.notes i cell hCell).waits hReady hRan
      constructor
      · intro hNow
        exact absurd hNow hReady
      · intro _ _
        exact ⟨hValue.symm, congrArg (· + 1) hWaits.2⟩
      · intro _ hNot
        exact absurd (.inr rfl) hNot
    · simp only [if_neg hHere, id_map'] at hOther
      apply (h.notes c other hOther).congr
      constructor
      · exact .inl
      · intro hEither
        rcases hEither with hRanC | hSelf
        · exact hRanC
        · exact absurd hSelf.symm hHere
  · intro c k hEither hNeeds
    rw [settle_sources] at hNeeds
    rcases hEither with hRanK | hSelf
    · exact .inl (h.closed c k hRanK hNeeds)
    · rw [hSelf] at hNeeds
      exact hBehind c hNeeds

------------------------------------------------------------
-- Reading Cells
------------------------------------------------------------

theorem force_cached
    {cell : Cell α}
    (hCell : store.cells[i]? = some cell)
    (hCached : cell.cached = some value) :
    store.force i = (store, some value) := by
  unfold force
  rw [hCell]
  dsimp only
  rw [hCached]

theorem force_produced
    {cell : Cell α}
    (hCell : store.cells[i]? = some cell)
    (hCached : cell.cached = none)
    (hKind : cell.source = .produced value) :
    store.force i = (store.settle i value, some value) := by
  unfold force
  rw [hCell]
  dsimp only
  rw [hCached, hKind]

theorem force_mapped
    {cell : Cell α}
    {f : α → α}
    (hCell : store.cells[i]? = some cell)
    (hCached : cell.cached = none)
    (hKind : cell.source = .mapped j f)
    (hBefore : j < i)
    (hForce : store.force j = (next, some value)) :
    store.force i =
      (next.settle i (f value), some (f value)) := by
  unfold force
  rw [hCell]
  dsimp only
  rw [hCached, hKind]
  dsimp only
  rw [if_pos hBefore, hForce]

/-
  What reading a cell leads to: its value, and the same store
  but for what has run. Next to what had run before, that is
  what the cell needs.
-/
structure Forces
    (store : Store α) (values : List α) (Ran : Nat → Prop)
    (i : Nat) (next : Store α) (value : α) :
    Prop where
  force : store.force i = (next, some value)
  value : values[i]? = some value
  handles : next.handles = store.handles
  sources : next.sources = store.sources
  noted : next.Noted values
    (fun c => Ran c ∨ Needs store.sources c i)

theorem Noted.forces_cached
    {cell : Cell α}
    (h : store.Noted values Ran)
    (hCell : store.cells[i]? = some cell)
    (hCached : cell.cached = some value) :
    store.Forces values Ran i store value := by
  rcases (h.notes i cell hCell).known hCached with
    ⟨hValue, hEither⟩
  refine
    ⟨force_cached hCell hCached, hValue, rfl, rfl, ?_⟩
  rcases hEither with hReady | hRan
  · exact h.reach_ready hCell hReady
  · exact h.reach_ran hRan

theorem Noted.forces_produced
    {cell : Cell α}
    (h : store.Noted values Ran)
    (hCell : store.cells[i]? = some cell)
    (hCached : cell.cached = none)
    (hKind : cell.source = .produced value)
    (hRan : ¬ Ran i)
    (hValue : values[i]? = some value) :
    store.Forces values Ran i (store.settle i value)
      value := by
  have hReady : ¬ cell.source.IsReady := by
    rw [hKind]
    exact not_false
  have hAlone :
      ∀ c, Needs store.sources c i ↔ c = i := by
    intro c
    apply needs_iff_eq hCell
    intro j f hMapped
    rw [hKind] at hMapped
    cases hMapped
  have hSettled :=
    h.settle hCell hReady hRan hValue
      fun c hNeeds => .inr ((hAlone c).mp hNeeds)
  exact
    ⟨force_produced hCell hCached hKind, hValue,
      settle_handles, settle_sources,
      hSettled.congr fun c =>
        or_congr_right (hAlone c).symm⟩

/- A mapped cell is read after its source. -/
theorem Forces.mapped
    {cell : Cell α}
    {f : α → α}
    (hSource : store.Forces values Ran j next value)
    (hValued : Valued store.sources values)
    (hCell : store.cells[i]? = some cell)
    (hCached : cell.cached = none)
    (hKind : cell.source = .mapped j f)
    (hRan : ¬ Ran i) :
    store.Forces values Ran i (next.settle i (f value))
      (f value) := by
  have hMapped : store.sources[i]? = some (.mapped j f) := by
    rw [sources_of_cell hCell, hKind]
  rcases hValued.mapped hMapped with ⟨hBefore, hValue⟩
  rw [hSource.value, Option.map_some] at hValue
  have hStill : next.sources[i]? = some (.mapped j f) := by
    rw [hSource.sources]
    exact hMapped
  rcases cell_of_sources hStill with ⟨still, hNow, hSame⟩
  have hReady : ¬ still.source.IsReady := by
    rw [hSame]
    exact not_false
  have hWaits : ¬ (Ran i ∨ Needs store.sources i j) := by
    intro hEither
    rcases hEither with hRanNow | hNeeds
    · exact hRan hRanNow
    · have hLe := hNeeds.le hValued
      omega
  have hBehind :
      ∀ c, Needs next.sources c i →
        (Ran c ∨ Needs store.sources c j) ∨ c = i := by
    intro c hNeeds
    rw [hSource.sources] at hNeeds
    rcases (needs_mapped_iff hMapped).mp hNeeds with
      hSelf | hRest
    · exact .inr hSelf
    · exact .inl (.inr hRest)
  have hSettled :=
    hSource.noted.settle hNow hReady hWaits hValue hBehind
  refine
    ⟨force_mapped hCell hCached hKind hBefore hSource.force,
      hValue, settle_handles.trans hSource.handles,
      settle_sources.trans hSource.sources,
      hSettled.congr ?_⟩
  intro c
  rw [needs_mapped_iff hMapped, or_assoc]
  exact or_congr_right or_comm

/- Every cell can be read. -/
theorem Noted.exists_forces
    (h : store.Noted values Ran)
    (hValued : Valued store.sources values)
    (hHere : i < store.cells.length) :
    ∃ next value,
      store.Forces values Ran i next value := by
  -- The source of a mapped cell was made before it.
  induction i using Nat.strongRecOn with
  | ind i ih =>
      have hLength := hValued.length
      rw [sources, List.length_map] at hLength
      have hFound : ∃ cell, store.cells[i]? = some cell :=
        ⟨_, List.getElem?_eq_getElem hHere⟩
      have hKnown : ∃ value, values[i]? = some value :=
        ⟨_, List.getElem?_eq_getElem (hLength ▸ hHere)⟩
      rcases hFound with ⟨cell, hCell⟩
      rcases hKnown with ⟨value, hValue⟩
      have hNotes := h.notes i cell hCell
      rw [hValue] at hNotes
      cases hCached : cell.cached with
      | some held =>
          exact ⟨store, held, h.forces_cached hCell hCached⟩
      | none =>
          rcases hNotes.waiting hCached with ⟨hReady, hRan⟩
          have hSource := sources_of_cell hCell
          cases hKind : cell.source with
          | ready held =>
              rw [hKind] at hReady
              exact absurd trivial hReady
          | produced made =>
              rw [hKind] at hSource
              exact
                ⟨store.settle i made, made,
                  h.forces_produced hCell hCached hKind hRan
                    (hValued.produced hSource)⟩
          | mapped j f =>
              rw [hKind] at hSource
              have hBefore :=
                (hValued.mapped hSource).1
              rcases ih j hBefore (Nat.lt_trans hBefore hHere)
                with ⟨next, argument, hForces⟩
              exact
                ⟨next.settle i (f argument), f argument,
                  hForces.mapped hValued hCell hCached hKind
                    hRan⟩

end Store

end Deferred

end GraphQL
