import GraphQL.Proofs.Deferred.Forcing

/-
  Handles and the cells that they refer to.

  A handle has a cell of its own, or it is a clone and shares
  the cell of another. A cell is needed for a handle if and only
  if the handle comes, by clones and functions, of the one that
  the cell was made for.

  Key definitions include:
    * `Deferred.Origin`: how a handle came about
    * `Deferred.Clones`, `Deferred.Derives`
    * `Deferred.Built`: handles and cells that belong together

  Main declarations:
    * `Deferred.Built.extend`
    * `Deferred.Built.same_cell_iff`
    * `Deferred.Derives.needs`
    * `Deferred.Built.derives_of_needs`
-/

------------------------------------------------------------
-- Origins
------------------------------------------------------------

namespace GraphQL

namespace Deferred

variable {α : Type} {n : Nat}

/- How a handle came about. -/
inductive Origin where
  | produced
  | ready
  | mapped (source : Nat)
  | shared (source : Nat)

/- Whether there is a cell for the handle alone. -/
def Origin.IsConstruction : Origin → Prop
  | .produced => True
  | .ready => True
  | .mapped _ => True
  | .shared _ => False

/- Whether the value is left for later. -/
def Origin.IsDelayed : Origin → Prop
  | .produced => True
  | .ready => False
  | .mapped _ => True
  | .shared _ => False

/- A handle, or a clone of a clone of it. -/
inductive Clones (origins : Vector Origin n) :
    Nat → Nat → Prop where
  | self (h : Nat) : Clones origins h h
  | share
      {c h k : Nat} :
      origins[h]? = some (.shared k) →
      Clones origins c k →
      Clones origins c h

/- A handle, or what comes of it by clones and functions. -/
inductive Derives (origins : Vector Origin n) :
    Nat → Nat → Prop where
  | self (h : Nat) : Derives origins h h
  | share
      {c h k : Nat} :
      origins[h]? = some (.shared k) →
      Derives origins c k →
      Derives origins c h
  | map
      {c h k : Nat} :
      origins[h]? = some (.mapped k) →
      Derives origins c k →
      Derives origins c h

/- A handle with a cell of its own. -/
def Constructs (origins : Vector Origin n) (h : Nat) : Prop :=
  ∃ origin, origins[h]? = some origin ∧
    origin.IsConstruction

------------------------------------------------------------
-- Handles And Cells
------------------------------------------------------------

variable {handles : List Nat} {sources : List (Source α)}
variable {origins : Vector Origin n} {values : Vector α n}
variable {held : List α}
variable {c h i k : Nat} {value : α}

/- The cell of a handle, by how the handle came about. -/
def Origin.Fits
    (handles : List Nat) (sources : List (Source α))
    (h : Nat) :
    Origin → Prop
  | .produced =>
      ∃ i value, handles[h]? = some i ∧
        sources[i]? = some (.produced value)
  | .ready =>
      ∃ i value, handles[h]? = some i ∧
        sources[i]? = some (.ready value)
  | .mapped k =>
      ∃ i j f, handles[h]? = some i ∧ handles[k]? = some j ∧
        sources[i]? = some (.mapped j f)
  | .shared k =>
      k < h ∧
        ∃ i, handles[h]? = some i ∧ handles[k]? = some i

/-
  A list of handles and a list of cells, as they grow together.
-/
structure Built
    (handles : List Nat) (sources : List (Source α))
    (origins : Vector Origin n) (values : Vector α n)
    (held : List α) :
    Prop where
  length : handles.length = n
  valued : Store.Valued sources held
  known : ∀ h i : Nat, handles[h]? = some i →
    held[i]? = values[h]?
  fits : ∀ (h : Nat) (origin : Origin),
    origins[h]? = some origin →
    origin.Fits handles sources h
  fresh : ∀ h k i : Nat,
    h < k → Constructs origins k →
    handles[h]? = some i → handles[k]? ≠ some i

theorem getElem?_append_of_eq_some
    {β : Type}
    {xs ys : List β}
    {x : β}
    (hFound : xs[i]? = some x) :
    (xs ++ ys)[i]? = some x := by
  rw [List.getElem?_append_left]
  · exact hFound
  · exact (List.getElem?_eq_some_iff.mp hFound).1

theorem getElem?_concat_of_ne
    {β : Type}
    {xs : List β}
    {x y : β}
    (hFound : (xs ++ [x])[i]? = some y)
    (hOld : i ≠ xs.length) :
    xs[i]? = some y := by
  have hInside := (List.getElem?_eq_some_iff.mp hFound).1
  rw [List.length_append, List.length_singleton] at hInside
  rw [List.getElem?_append_left] at hFound
  · exact hFound
  · omega

/- What handles refer to stays when others are added. -/
theorem Origin.Fits.append
    {origin : Origin}
    {more : List Nat}
    {others : List (Source α)}
    (hFits : origin.Fits handles sources h) :
    origin.Fits (handles ++ more) (sources ++ others) h := by
  cases origin with
  | produced =>
      rcases hFits with ⟨i, value, hHandle, hSource⟩
      exact
        ⟨i, value, getElem?_append_of_eq_some hHandle,
          getElem?_append_of_eq_some hSource⟩
  | ready =>
      rcases hFits with ⟨i, value, hHandle, hSource⟩
      exact
        ⟨i, value, getElem?_append_of_eq_some hHandle,
          getElem?_append_of_eq_some hSource⟩
  | mapped k =>
      rcases hFits with ⟨i, j, f, hHandle, hOther, hSource⟩
      exact
        ⟨i, j, f, getElem?_append_of_eq_some hHandle,
          getElem?_append_of_eq_some hOther,
          getElem?_append_of_eq_some hSource⟩
  | shared k =>
      rcases hFits with ⟨hBefore, i, hHandle, hOther⟩
      exact
        ⟨hBefore, i, getElem?_append_of_eq_some hHandle,
          getElem?_append_of_eq_some hOther⟩

/- The cell of a handle is one of the cells. -/
theorem Built.cell_lt
    (hBuilt : Built handles sources origins values held)
    (hHandle : handles[h]? = some i) :
    i < sources.length := by
  have hInside := (List.getElem?_eq_some_iff.mp hHandle).1
  rw [hBuilt.length] at hInside
  have hHeld := hBuilt.known h i hHandle
  rw [Vector.getElem?_eq_getElem hInside] at hHeld
  rw [← hBuilt.valued.length]
  exact (List.getElem?_eq_some_iff.mp hHeld).1

theorem Built.exists_handle
    (hBuilt : Built handles sources origins values held)
    (hHandle : h < n) :
    ∃ i, handles[h]? = some i := by
  rw [← hBuilt.length] at hHandle
  exact ⟨handles[h], List.getElem?_eq_getElem hHandle⟩

/- One more handle, to a new cell or to one that is there. -/
theorem Built.extend
    {others : List (Source α)}
    {more : List α}
    {origin : Origin}
    (hBuilt : Built handles sources origins values held)
    (hValued :
      Store.Valued (sources ++ others) (held ++ more))
    (hHeld : (held ++ more)[i]? = some value)
    (hFits :
      origin.Fits (handles ++ [i]) (sources ++ others) n)
    (hNew : origin.IsConstruction → sources.length ≤ i) :
    Built (handles ++ [i]) (sources ++ others)
      (origins.push origin) (values.push value)
      (held ++ more) := by
  have hLast : (handles ++ [i])[n]? = some i := by
    rw [← hBuilt.length]
    exact List.getElem?_concat_length
  constructor
  · rw [List.length_append, hBuilt.length]
    rfl
  · exact hValued
  · intro h j hHandle
    rw [Vector.getElem?_push]
    by_cases hHere : h = n
    · rw [hHere, hLast] at hHandle
      rw [if_pos hHere, ← Option.some.inj hHandle]
      exact hHeld
    · rw [← hBuilt.length] at hHere
      have hOld := getElem?_concat_of_ne hHandle hHere
      have hCell := hBuilt.cell_lt hOld
      rw [← hBuilt.valued.length] at hCell
      rw [hBuilt.length] at hHere
      rw [if_neg hHere, List.getElem?_append_left hCell]
      exact hBuilt.known h j hOld
  · intro h other hOther
    rw [Vector.getElem?_push] at hOther
    by_cases hHere : h = n
    · rw [if_pos hHere] at hOther
      rw [hHere, ← Option.some.inj hOther]
      exact hFits
    · rw [if_neg hHere] at hOther
      exact (hBuilt.fits h other hOther).append
  -- No handle refers to a new cell before the last one does.
  · intro h k j hBefore hConstructs hFirst hSecond
    rcases hConstructs with ⟨other, hOther, hConstruction⟩
    rw [Vector.getElem?_push] at hOther
    have hInside :=
      (List.getElem?_eq_some_iff.mp hSecond).1
    rw [List.length_append, List.length_singleton,
      hBuilt.length] at hInside
    have hOld : handles[h]? = some j := by
      apply getElem?_concat_of_ne hFirst
      rw [hBuilt.length]
      omega
    by_cases hHere : k = n
    · rw [if_pos hHere] at hOther
      rw [← Option.some.inj hOther] at hConstruction
      rw [hHere, hLast] at hSecond
      have hCell := hBuilt.cell_lt hOld
      have hBeyond := hNew hConstruction
      rw [Option.some.inj hSecond] at hBeyond
      omega
    · rw [if_neg hHere] at hOther
      apply hBuilt.fresh h k j hBefore
        ⟨other, hOther, hConstruction⟩ hOld
      apply getElem?_concat_of_ne hSecond
      rw [hBuilt.length]
      exact hHere

/- Two handles with cells of their own have two cells. -/
theorem Built.eq_of_same_cell
    (hBuilt : Built handles sources origins values held)
    (hFirst : Constructs origins h)
    (hSecond : Constructs origins k)
    (hHandle : handles[h]? = some i)
    (hOther : handles[k]? = some i) :
    h = k := by
  rcases Nat.lt_trichotomy h k with hBefore | hSame | hAfter
  · exact absurd hOther
      (hBuilt.fresh h k i hBefore hSecond hHandle)
  · exact hSame
  · exact absurd hHandle
      (hBuilt.fresh k h i hAfter hFirst hOther)

------------------------------------------------------------
-- Clones And Dependence
------------------------------------------------------------

/- A clone refers to the cell of its origin. -/
theorem Clones.same_cell
    (hClones : Clones origins c h)
    (hBuilt : Built handles sources origins values held) :
    handles[c]? = handles[h]? := by
  induction hClones with
  | self => rfl
  | share hShared _ ih =>
      rcases hBuilt.fits _ _ hShared with
        ⟨_, i, hHandle, hOther⟩
      rw [ih, hHandle, hOther]

/- Every handle is a clone of one with a cell of its own. -/
theorem Built.exists_clones
    (hBuilt : Built handles sources origins values held)
    (hHandle : h < n) :
    ∃ c, Constructs origins c ∧ Clones origins c h := by
  -- A clone was made after what it is a clone of.
  induction h using Nat.strongRecOn with
  | ind h ih =>
      have hOrigin : origins[h]? = some origins[h] :=
        Vector.getElem?_eq_getElem hHandle
      cases hKind : origins[h] with
      | shared k =>
          rw [hKind] at hOrigin
          have hBefore := (hBuilt.fits h _ hOrigin).1
          rcases ih k hBefore (Nat.lt_trans hBefore hHandle)
            with ⟨c, hConstructs, hClones⟩
          exact ⟨c, hConstructs, .share hOrigin hClones⟩
      | produced =>
          rw [hKind] at hOrigin
          exact ⟨h, ⟨_, hOrigin, trivial⟩, .self h⟩
      | ready =>
          rw [hKind] at hOrigin
          exact ⟨h, ⟨_, hOrigin, trivial⟩, .self h⟩
      | mapped k =>
          rw [hKind] at hOrigin
          exact ⟨h, ⟨_, hOrigin, trivial⟩, .self h⟩

/- Two handles have one cell if they are clones of one. -/
theorem Built.same_cell_iff
    {a b : Nat}
    (hBuilt : Built handles sources origins values held)
    (hFirst : handles[a]? = some i)
    (hSecond : handles[b]? = some k) :
    i = k ↔
      ∃ c, Constructs origins c ∧ Clones origins c a ∧
        Clones origins c b := by
  constructor
  · intro hSame
    have hInside := (List.getElem?_eq_some_iff.mp hFirst).1
    have hOther := (List.getElem?_eq_some_iff.mp hSecond).1
    rw [hBuilt.length] at hInside hOther
    rcases hBuilt.exists_clones hInside with
      ⟨c, hConstructs, hClones⟩
    rcases hBuilt.exists_clones hOther with
      ⟨d, hConstruction, hShares⟩
    have hCell := (hClones.same_cell hBuilt).trans hFirst
    have hShared := (hShares.same_cell hBuilt).trans hSecond
    rw [← hSame] at hShared
    have hEq :=
      hBuilt.eq_of_same_cell hConstructs hConstruction hCell
        hShared
    rw [← hEq] at hShares
    exact ⟨c, hConstructs, hClones, hShares⟩
  · intro hExists
    rcases hExists with ⟨c, _, hClones, hShares⟩
    have hCell := hClones.same_cell hBuilt
    rw [hShares.same_cell hBuilt, hFirst, hSecond] at hCell
    exact (Option.some.inj hCell).symm

theorem Derives.of_clones
    {b : Nat}
    (hDerives : Derives origins b c)
    (hClones : Clones origins c h) :
    Derives origins b h := by
  induction hClones with
  | self => exact hDerives
  | share hShared _ ih => exact .share hShared ih

/- What a handle depends on is needed for its cell. -/
theorem Derives.needs
    (hDerives : Derives origins c h)
    (hBuilt : Built handles sources origins values held)
    (hFirst : handles[c]? = some k)
    (hSecond : handles[h]? = some i) :
    Store.Needs sources k i := by
  induction hDerives generalizing i with
  | self =>
      rw [hFirst] at hSecond
      rw [Option.some.inj hSecond]
      exact .self i
  | share hShared _ ih =>
      rcases hBuilt.fits _ _ hShared with
        ⟨_, j, hHandle, hOther⟩
      rw [hHandle] at hSecond
      rw [← Option.some.inj hSecond]
      exact ih hOther
  | map hMapped _ ih =>
      rcases hBuilt.fits _ _ hMapped with
        ⟨j, k, f, hHandle, hOther, hSource⟩
      rw [hHandle] at hSecond
      rw [← Option.some.inj hSecond]
      exact .source hSource (ih hOther)

/- A mapped cell belongs to a handle that was mapped. -/
theorem Built.exists_mapped
    {j : Nat}
    {f : α → α}
    (hBuilt : Built handles sources origins values held)
    (hConstructs : Constructs origins h)
    (hHandle : handles[h]? = some i)
    (hSource : sources[i]? = some (.mapped j f)) :
    ∃ k, origins[h]? = some (.mapped k) ∧
      handles[k]? = some j := by
  rcases hConstructs with ⟨origin, hOrigin, hConstruction⟩
  have hFits := hBuilt.fits h origin hOrigin
  cases origin with
  | produced =>
      rcases hFits with ⟨_, _, hOwn, hOther⟩
      rw [hHandle] at hOwn
      rw [← Option.some.inj hOwn, hSource] at hOther
      cases hOther
  | ready =>
      rcases hFits with ⟨_, _, hOwn, hOther⟩
      rw [hHandle] at hOwn
      rw [← Option.some.inj hOwn, hSource] at hOther
      cases hOther
  | mapped k =>
      rcases hFits with ⟨_, _, _, hOwn, hBehind, hOther⟩
      rw [hHandle] at hOwn
      rw [← Option.some.inj hOwn, hSource] at hOther
      cases hOther
      exact ⟨k, hOrigin, hBehind⟩
  | shared k => exact absurd hConstruction not_false

/- A cell is needed only for what depends on its handle. -/
theorem Built.derives_of_needs
    (hBuilt : Built handles sources origins values held)
    (hNeeds : Store.Needs sources k i)
    (hConstructs : Constructs origins c)
    (hFirst : handles[c]? = some k)
    (hSecond : handles[h]? = some i) :
    Derives origins c h := by
  induction hNeeds generalizing h with
  | self =>
      have hSame := (hBuilt.same_cell_iff hFirst hSecond).mp rfl
      rcases hSame with ⟨d, hOwn, hClones, hShares⟩
      have hCell := (hClones.same_cell hBuilt).trans hFirst
      rw [hBuilt.eq_of_same_cell hConstructs hOwn hFirst hCell]
      exact (Derives.self d).of_clones hShares
  | source hSource _ ih =>
      have hInside := (List.getElem?_eq_some_iff.mp hSecond).1
      rw [hBuilt.length] at hInside
      rcases hBuilt.exists_clones hInside with
        ⟨d, hOwn, hClones⟩
      have hCell := (hClones.same_cell hBuilt).trans hSecond
      rcases hBuilt.exists_mapped hOwn hCell hSource with
        ⟨b, hMapped, hBehind⟩
      have hDerives := Derives.map hMapped (ih hBehind)
      exact hDerives.of_clones hClones

end Deferred

end GraphQL
