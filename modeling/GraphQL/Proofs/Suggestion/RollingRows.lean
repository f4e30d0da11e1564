import GraphQL.Proofs.Suggestion.Alignment

/-
  The table of distances, of which three rows are kept.

  While a row is filled, the two rows above it are whole, and
  the place of the third is the one that is written to. No
  place outside the rows is read or written, and no difference
  is negative. A table that is given up has a row beyond the
  threshold, and all later rows are beyond it as well.

  Key definitions include:
    * `Suggestion.tableCell`: the cells of the whole table
    * `Suggestion.Rows.Filled`: what rows keep of the table

  Main declarations:
    * `Suggestion.Rows.Filled.nextCell_eq`
    * `Suggestion.Rows.Filled.exists_fillRow`
    * `Suggestion.alignment_eq`
    * `Suggestion.measure_exact`
-/

------------------------------------------------------------
-- Places
------------------------------------------------------------

namespace GraphQL

namespace Suggestion

theorem minus_eq {a b : Nat} (h : b ≤ a) :
    minus a b = .ok (a - b) :=
  if_pos h

theorem item_eq_ok_iff
    {α : Type}
    {items : Array α}
    {place : Nat}
    {found : α} :
    item items place = .ok found ↔
      items[place]? = some found := by
  unfold item
  cases items[place]? with
  | none => simp
  | some other => simp

/- The characters of a text, as they are read. -/
theorem item_toArray
    {text : List Char}
    {i : Nat}
    (h : i < text.length) :
    item text.toArray i = .ok text[i] := by
  rw [item_eq_ok_iff, List.getElem?_toArray,
    List.getElem?_eq_getElem h]

namespace Rows

theorem read_eq_ok_iff
    {rows : Rows}
    {i j value : Nat} :
    rows.read i j = .ok value ↔
      ∃ row, rows[i % 3]? = some row ∧
        row[j]? = some value := by
  unfold read item
  cases rows[i % 3]? with
  | none => simp [bind, Except.bind]
  | some row =>
      simp only [bind, Except.bind, Option.some.injEq,
        exists_eq_left']
      exact item_eq_ok_iff

/-
  A cell that can be read can be written. What is read next is
  the new value there, and the old one everywhere else.
-/
theorem exists_write
    {rows : Rows}
    {i j old : Nat}
    (h : rows.read i j = .ok old)
    (value : Nat) :
    ∃ next, rows.write i j value = .ok next ∧
      next.read i j = .ok value ∧
      ∀ k l, k % 3 ≠ i % 3 ∨ l ≠ j →
        next.read k l = rows.read k l := by
  rcases read_eq_ok_iff.1 h with ⟨row, hRow, hCell⟩
  have hItem : item rows (i % 3) = .ok row :=
    item_eq_ok_iff.2 hRow
  have hWithin : j < row.size :=
    (Array.getElem?_eq_some_iff.1 hCell).1
  refine ⟨rows.modify (i % 3) fun row =>
    row.setIfInBounds j value, ?_, ?_, ?_⟩
  · simp only [write, hItem, bind, Except.bind, if_pos hWithin]
    rfl
  · rw [read_eq_ok_iff]
    refine ⟨row.setIfInBounds j value, ?_, ?_⟩
    · rw [Array.getElem?_modify, if_pos rfl, hRow,
        Option.map_some]
    · rw [Array.getElem?_setIfInBounds, if_pos rfl,
        if_pos hWithin]
  · intro k l hOther
    by_cases hTurn : i % 3 = k % 3
    · have hColumn : j ≠ l := by omega
      simp only [read, item, Array.getElem?_modify, ← hTurn,
        if_true, hRow, Option.map_some, bind, Except.bind,
        Array.getElem?_setIfInBounds, if_neg hColumn]
    · simp only [read, item, Array.getElem?_modify,
        if_neg hTurn]

end Rows

------------------------------------------------------------
-- Cells
------------------------------------------------------------

/- The distance of the first `i` and `j` characters. -/
def tableCell (a b : List Char) (i j : Nat) : Nat :=
  alignmentDistance (a.take i) (b.take j)

variable {a b : List Char}

theorem tableCell_zero
    {j : Nat}
    (h : j ≤ b.length) :
    tableCell a b 0 j = j := by
  rw [tableCell, List.take_zero, alignmentDistance_nil,
    List.length_take_of_le h]

theorem tableCell_zero_right
    {i : Nat}
    (h : i ≤ a.length) :
    tableCell a b i 0 = i := by
  rw [tableCell, List.take_zero, alignmentDistance_nil_right,
    List.length_take_of_le h]

theorem tableCell_full :
    tableCell a b a.length b.length =
      alignmentDistance a b := by
  rw [tableCell, List.take_length, List.take_length]

/- At the border of the table, characters are edited alone. -/
theorem tableCell_single
    {i j : Nat}
    (hI : i < a.length)
    (hJ : j < b.length)
    (hBorder : i = 0 ∨ j = 0) :
    tableCell a b (i + 1) (j + 1) =
      singleEdit a[i] b[j] (tableCell a b i (j + 1))
        (tableCell a b (i + 1) j) (tableCell a b i j) := by
  simp only [tableCell, List.take_succ_eq_append_getElem hI,
    List.take_succ_eq_append_getElem hJ]
  apply alignmentDistance_single
  rcases hBorder with hBorder | hBorder
  · left
    rw [hBorder, List.take_zero]
  · right
    rw [hBorder, List.take_zero]

/- Inside, the last two may change places. -/
theorem tableCell_swap
    {i j : Nat}
    (hI : i + 1 < a.length)
    (hJ : j + 1 < b.length) :
    tableCell a b (i + 2) (j + 2) =
      if a[i + 1] = b[j] ∧ a[i] = b[j + 1] then
        min
          (singleEdit a[i + 1] b[j + 1]
            (tableCell a b (i + 1) (j + 2))
            (tableCell a b (i + 2) (j + 1))
            (tableCell a b (i + 1) (j + 1)))
          (tableCell a b i j + 1)
      else
        singleEdit a[i + 1] b[j + 1]
          (tableCell a b (i + 1) (j + 2))
          (tableCell a b (i + 2) (j + 1))
          (tableCell a b (i + 1) (j + 1)) := by
  have hA : a.take (i + 2) =
      a.take i ++ [a[i]] ++ [a[i + 1]] := by
    rw [List.take_succ_eq_append_getElem hI,
      List.take_succ_eq_append_getElem (Nat.lt_of_succ_lt hI)]
  have hB : b.take (j + 2) =
      b.take j ++ [b[j]] ++ [b[j + 1]] := by
    rw [List.take_succ_eq_append_getElem hJ,
      List.take_succ_eq_append_getElem (Nat.lt_of_succ_lt hJ)]
  simp only [tableCell, hA, hB,
    List.take_succ_eq_append_getElem (Nat.lt_of_succ_lt hI),
    List.take_succ_eq_append_getElem (Nat.lt_of_succ_lt hJ)]
  exact alignmentDistance_swap _ _ _ _ _ _

/- Below a row beyond a threshold all is beyond it. -/
theorem lt_alignmentDistance_of_tableRow
    {threshold i : Nat}
    (hRow : ∀ j ≤ b.length, threshold < tableCell a b i j) :
    threshold < alignmentDistance a b := by
  rw [← List.take_append_drop i a]
  apply lt_alignmentDistance_of_row
  intro b' hPrefix
  have hCell := hRow b'.length hPrefix.length_le
  rwa [tableCell, ← List.prefix_iff_eq_take.1 hPrefix]
    at hCell

------------------------------------------------------------
-- Filling a Row
------------------------------------------------------------

namespace Rows

/- The first cells of a row are those of the table. -/
def Has
    (rows : Rows) (a b : List Char) (i count : Nat) : Prop :=
  ∀ j < count, rows.read i j = .ok (tableCell a b i j)

/-
  Rows of which the last has its first cells. The two above it
  are whole, and every place is there.
-/
structure Filled
    (rows : Rows) (a b : List Char) (i count : Nat) :
    Prop where
  places : ∀ k, ∀ j ≤ b.length,
    ∃ value, rows.read k j = .ok value
  last : rows.Has a b i count
  above : ∀ k, k + 1 = i → rows.Has a b k (b.length + 1)
  twoAbove : ∀ k, k + 2 = i → rows.Has a b k (b.length + 1)

theorem read_start
    {width k j : Nat}
    (h : j ≤ width) :
    (start width).read k j =
      .ok (if k % 3 = 0 then j else 0) := by
  have hTurn : k % 3 = 0 ∨ k % 3 = 1 ∨ k % 3 = 2 := by omega
  have hWithin : j < width + 1 := by omega
  rw [read_eq_ok_iff]
  rcases hTurn with hTurn | hTurn | hTurn
  · refine ⟨Array.range (width + 1), ?_, ?_⟩
    · simp [start, hTurn]
    · simp [hTurn, hWithin]
  · refine ⟨Array.replicate (width + 1) 0, ?_, ?_⟩
    · simp [start, hTurn]
    · simp [hTurn, hWithin]
  · refine ⟨Array.replicate (width + 1) 0, ?_, ?_⟩
    · simp [start, hTurn]
    · simp [hTurn, hWithin]

/- At first there is the row above the first character. -/
theorem filled_start :
    (start b.length).Filled a b 0 (b.length + 1) where
  places := by
    intro k j hJ
    exact ⟨_, read_start hJ⟩
  last := by
    intro j hJ
    have hWithin : j ≤ b.length := by omega
    rw [read_start hWithin, tableCell_zero hWithin]
    rfl
  above := by
    intro k hK
    omega
  twoAbove := by
    intro k hK
    omega

namespace Filled

variable {rows : Rows} {i j count : Nat}

/- A whole row is above the next one, which has no cells yet. -/
theorem turn (h : rows.Filled a b i (b.length + 1)) :
    rows.Filled a b (i + 1) 0 where
  places := h.places
  last := by
    intro j hJ
    omega
  above := by
    intro k hK
    obtain rfl : k = i := by omega
    exact h.last
  twoAbove := by
    intro k hK
    exact h.above k (by omega)

/-
  The next cell is put into its place. It takes that of a cell
  three rows above, so the rows that are needed stay whole.
-/
theorem exists_put
    (h : rows.Filled a b i count)
    (hCount : count ≤ b.length) :
    ∃ next, rows.write i count (tableCell a b i count) =
        .ok next ∧
      next.Filled a b i (count + 1) := by
  rcases h.places i count hCount with ⟨old, hOld⟩
  rcases exists_write hOld (tableCell a b i count) with
    ⟨next, hWrite, hNew, hKept⟩
  refine ⟨next, hWrite, ?_, ?_, ?_, ?_⟩
  · intro k j hJ
    by_cases hPlace : k % 3 = i % 3 ∧ j = count
    · rcases hPlace with ⟨hTurn, rfl⟩
      have hSame : next.read k j = next.read i j := by
        rw [read, read, hTurn]
      exact ⟨_, hSame.trans hNew⟩
    · rw [hKept k j (by omega)]
      exact h.places k j hJ
  · intro j hJ
    by_cases hLast : j = count
    · rw [hLast]
      exact hNew
    · rw [hKept i j (.inr hLast)]
      exact h.last j (by omega)
  · intro k hK j hJ
    rw [hKept k j (.inl (by omega))]
    exact h.above k hK j hJ
  · intro k hK j hJ
    rw [hKept k j (.inl (by omega))]
    exact h.twoAbove k hK j hJ

/- The next cell is found from the cells that are kept. -/
theorem nextCell_eq
    (h : rows.Filled a b (i + 1) (j + 1))
    (hI : i < a.length)
    (hJ : j < b.length) :
    nextCell a.toArray b.toArray rows (i + 1) (j + 1) =
      .ok (tableCell a b (i + 1) (j + 1)) := by
  have hUp := h.above i rfl (j + 1) (by omega)
  have hLeft := h.last j (by omega)
  have hDiagonal := h.above i rfl j (by omega)
  have hRow : minus (i + 1) 1 = .ok i :=
    minus_eq (by omega)
  have hColumn : minus (j + 1) 1 = .ok j :=
    minus_eq (by omega)
  simp only [nextCell, hRow, hColumn, item_toArray hI,
    item_toArray hJ, hUp, hLeft, hDiagonal, bind, Except.bind]
  by_cases hInside : 1 < i + 1 ∧ 1 < j + 1
  · obtain ⟨k, rfl⟩ : ∃ k, i = k + 1 := ⟨i - 1, by omega⟩
    obtain ⟨l, rfl⟩ : ∃ l, j = l + 1 := ⟨j - 1, by omega⟩
    have hSwapped := h.twoAbove k rfl l (by omega)
    have hTwoRows : minus (k + 1 + 1) 2 = .ok k :=
      minus_eq (by omega)
    have hTwoColumns : minus (l + 1 + 1) 2 = .ok l :=
      minus_eq (by omega)
    have hK : k < a.length := by omega
    have hL : l < b.length := by omega
    rw [if_pos hInside, tableCell_swap hI hJ]
    simp only [hTwoRows, hTwoColumns, item_toArray hK,
      item_toArray hL, hSwapped]
    split
    · rfl
    · rfl
  · rw [if_neg hInside, tableCell_single hI hJ (by omega)]
    rfl

/-
  Cell by cell, a row is filled from the left. The smallest of
  its cells is beyond a threshold exactly if they all are.
-/
theorem exists_fillCells
    (h : rows.Filled a b (i + 1) 1)
    (hI : i < a.length)
    (hCount : count ≤ b.length) :
    ∃ next smallest,
      (List.range' 1 count).foldlM
          (fillCell a.toArray b.toArray (i + 1))
          (rows, i + 1) = .ok (next, smallest) ∧
        next.Filled a b (i + 1) (count + 1) ∧
        ∀ threshold, threshold < smallest ↔
          ∀ j ≤ count, threshold < tableCell a b (i + 1) j := by
  induction count with
  | zero =>
      refine ⟨rows, i + 1, rfl, h, ?_⟩
      intro threshold
      simp only [Nat.le_zero_eq, forall_eq,
        tableCell_zero_right hI]
  | succ count ih =>
      rcases ih (by omega) with
        ⟨before, smallest, hRun, hBefore, hSmallest⟩
      rcases hBefore.exists_put hCount with
        ⟨next, hWrite, hNext⟩
      have hCell := hBefore.nextCell_eq hI (by omega)
      refine ⟨next, min smallest
        (tableCell a b (i + 1) (count + 1)), ?_, hNext, ?_⟩
      · rw [List.range'_1_concat, List.foldlM_append, hRun]
        simp only [bind, Except.bind, List.foldlM_cons,
          List.foldlM_nil, fillCell, Nat.add_comm 1 count,
          hCell, hWrite]
        rfl
      · intro threshold
        rw [Nat.lt_min, hSmallest]
        constructor
        · intro ⟨hEarlier, hLast⟩ j hJ
          by_cases hEnd : j = count + 1
          · rwa [hEnd]
          · exact hEarlier j (by omega)
        · intro hAll
          constructor
          · intro j hJ
            exact hAll j (by omega)
          · exact hAll (count + 1) (Nat.le_refl _)

/- A row is filled without a fault. -/
theorem exists_fillRow
    (h : rows.Filled a b i (b.length + 1))
    (hI : i < a.length) :
    ∃ next smallest,
      fillRow a.toArray b.toArray rows (i + 1) =
          .ok (next, smallest) ∧
        next.Filled a b (i + 1) (b.length + 1) ∧
        ∀ threshold, threshold < smallest ↔
          ∀ j ≤ b.length,
            threshold < tableCell a b (i + 1) j := by
  rcases h.turn.exists_put (Nat.zero_le _) with
    ⟨first, hWrite, hFirst⟩
  rw [tableCell_zero_right hI] at hWrite
  rcases hFirst.exists_fillCells hI (Nat.le_refl _) with
    ⟨next, smallest, hRun, hNext, hSmallest⟩
  refine ⟨next, smallest, ?_, hNext, hSmallest⟩
  simp only [fillRow, hWrite, bind, Except.bind,
    List.size_toArray]
  exact hRun

------------------------------------------------------------
-- Filling the Table
------------------------------------------------------------

/-
  All rows are filled without a fault, or the table is given up
  at a row beyond the threshold, and then the distance of the
  texts is beyond it.
-/
theorem exists_fillRows
    (threshold : Nat)
    (h : rows.Filled a b i (b.length + 1))
    (hCount : i + count = a.length) :
    ∃ filled?,
      fillRows threshold a.toArray b.toArray rows
          (List.range' (i + 1) count) = .ok filled? ∧
        (∀ filled ∈ filled?,
          filled.Filled a b a.length (b.length + 1)) ∧
        (filled? = none →
          threshold < alignmentDistance a b) := by
  induction count generalizing rows i with
  | zero =>
      refine ⟨some rows, rfl, ?_, by simp⟩
      intro filled hFilled
      cases hFilled
      rwa [← hCount]
  | succ count ih =>
      rcases h.exists_fillRow (by omega) with
        ⟨next, smallest, hRun, hNext, hSmallest⟩
      rw [List.range'_succ, fillRows, hRun]
      simp only [bind, Except.bind]
      by_cases hBeyond : threshold < smallest
      · rw [if_pos hBeyond]
        refine ⟨none, rfl, by simp, ?_⟩
        intro _
        apply lt_alignmentDistance_of_tableRow
        exact (hSmallest threshold).1 hBeyond
      · rw [if_neg hBeyond]
        exact ih hNext (by omega)

end Filled

end Rows

/-
  The distance is measured without a fault: neither the check of
  the lengths nor giving up the table changes the answer.
-/
theorem alignment_eq
    (threshold : Nat)
    (hLength : b.length ≤ a.length) :
    alignment threshold a.toArray b.toArray =
      .ok (if alignmentDistance a b ≤ threshold then
        some (alignmentDistance a b) else none) := by
  have hMinus := minus_eq hLength
  have hSurplus := length_sub_le_alignmentDistance a b
  simp only [alignment, List.size_toArray, hMinus, bind,
    Except.bind]
  by_cases hFar : threshold < a.length - b.length
  · rw [if_pos hFar, if_neg (by omega)]
    rfl
  · rw [if_neg hFar]
    rcases Rows.filled_start.exists_fillRows threshold
        (b := b) (Nat.zero_add a.length) with
      ⟨filled?, hRun, hFilled, hGivenUp⟩
    rw [hRun]
    cases filled? with
    | none =>
        rw [if_neg (Nat.not_le_of_lt (hGivenUp rfl))]
        rfl
    | some filled =>
        have hLast :=
          (hFilled filled rfl).last b.length (by omega)
        rw [tableCell_full] at hLast
        simp only [hLast]
        split
        · rfl
        · rfl

/- It does not matter which of the texts is the longer one. -/
theorem alignment_of_texts
    (threshold : Nat)
    (a b : List Char) :
    (if a.length < b.length then
        alignment threshold b.toArray a.toArray
      else
        alignment threshold a.toArray b.toArray) =
      .ok (if alignmentDistance a b ≤ threshold then
        some (alignmentDistance a b) else none) := by
  by_cases hShorter : a.length < b.length
  · rw [if_pos hShorter, alignment_eq threshold hShorter.le,
      alignmentDistance_comm]
  · rw [if_neg hShorter, alignment_eq threshold (by omega)]

------------------------------------------------------------
-- Measured Distances
------------------------------------------------------------

/-
  What is measured for any input, option and threshold: nothing
  for equal texts, one for texts that are equal in lower case,
  and else the distance in lower case, up to the threshold.
-/
theorem measure_exact
    (threshold : Nat)
    (input option : String) :
    measure threshold input option =
      .ok (
        if input = option then
          some 0
        else if
          Text.lowercase input = Text.lowercase option then
          some 1
        else if
          alignmentDistance (Text.lowercase input)
            (Text.lowercase option) ≤ threshold then
          some (alignmentDistance (Text.lowercase input)
            (Text.lowercase option))
        else
          none) := by
  simp only [measure, alignment_of_texts]
  by_cases hEqual : input = option
  · rw [if_pos hEqual, if_pos hEqual]
  · rw [if_neg hEqual, if_neg hEqual]
    by_cases hLower :
        Text.lowercase input = Text.lowercase option
    · rw [if_pos hLower, if_pos hLower]
    · rw [if_neg hLower, if_neg hLower]

example :
    measure 4 "214365879" "123456789" = .ok (some 4) := by
  decide +kernel

end Suggestion

end GraphQL
