/-
  Values that are computed when they are first needed.

  A store holds cells, and handles that refer to them. A cell
  is made from a value that is at hand, from a producer, or by
  a function from another cell. Reading a handle runs what has
  not run yet, each producer and each function at most once.

  Key definitions include:
    * `Deferred.Source`, `Deferred.Cell`, `Deferred.Store`
    * `Deferred.Store.force`
    * `Deferred.Store.read`
-/

------------------------------------------------------------
-- Cells
------------------------------------------------------------

namespace GraphQL

namespace Deferred

/- How the value of a cell comes about. -/
inductive Source (α : Type) where
  | ready (value : α)
  | produced (value : α)
  | mapped (cell : Nat) (f : α → α)

/- A cell: its source, its value once known, and its runs. -/
structure Cell (α : Type) where
  source : Source α
  cached : Option α
  runs : Nat

/- Cells in order of construction, and the cell of each handle. -/
structure Store (α : Type) where
  cells : List (Cell α)
  handles : List Nat

namespace Store

variable {α : Type}

/- A store without cells. -/
def empty : Store α :=
  ⟨[], []⟩

------------------------------------------------------------
-- Reading
------------------------------------------------------------

/- Note that a cell has run and what its value is. -/
def settle (store : Store α) (i : Nat) (value : α) : Store α :=
  { store with
    cells := store.cells.modify i fun cell =>
      { cell with
        cached := some value
        runs := cell.runs + 1 } }

/-
  The value of a cell, and the store in which it is known.
  A mapped cell reads a cell that was made before it.
-/
def force (store : Store α) (i : Nat) : Store α × Option α :=
  match store.cells[i]? with
  | none => (store, none)
  | some cell =>
      match cell.cached with
      | some value => (store, some value)
      | none =>
          match cell.source with
          | .ready value => (store.settle i value, some value)
          | .produced value =>
              (store.settle i value, some value)
          | .mapped j f =>
              if j < i then
                match force store j with
                | (store, some value) =>
                    (store.settle i (f value), some (f value))
                | (store, none) => (store, none)
              else
                (store, none)
termination_by i

/- Read a handle. -/
def read (store : Store α) (handle : Nat) :
    Store α × Option α :=
  match store.handles[handle]? with
  | some i => store.force i
  | none => (store, none)

------------------------------------------------------------
-- Construction
------------------------------------------------------------

/- Add a cell and a handle to it. -/
def add (store : Store α) (cell : Cell α) : Store α :=
  ⟨store.cells ++ [cell],
    store.handles ++ [store.cells.length]⟩

/- A cell whose value is already known. -/
def ready (store : Store α) (value : α) : Store α :=
  store.add ⟨.ready value, some value, 0⟩

/- A cell with a producer that has not run. -/
def produce (store : Store α) (value : α) : Store α :=
  store.add ⟨.produced value, none, 0⟩

/- A cell that applies a function to the value of a handle. -/
def map (store : Store α) (handle : Nat) (f : α → α) :
    Store α :=
  match store.handles[handle]? with
  | some i => store.add ⟨.mapped i f, none, 0⟩
  | none => store

/- Another handle to the same cell. -/
def share (store : Store α) (handle : Nat) : Store α :=
  match store.handles[handle]? with
  | some i => { store with handles := store.handles ++ [i] }
  | none => store

/- Whether two handles refer to the same cell. -/
def same (store : Store α) (a b : Nat) : Bool :=
  match store.handles[a]?, store.handles[b]? with
  | some i, some j => i == j
  | _, _ => false

/- How often the cell of each handle has run. -/
def runs (store : Store α) : List Nat :=
  store.handles.map fun i =>
    match store.cells[i]? with
    | some cell => cell.runs
    | none => 0

end Store

end Deferred

end GraphQL
