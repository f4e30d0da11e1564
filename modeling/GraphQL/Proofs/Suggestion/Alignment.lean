import GraphQL.Suggestion
import Mathlib.Data.List.Infix
import Mathlib.Order.Bounds.Basic

/-
  The distance of two texts by their prefixes.

  The distance is defined by recursion on the last characters
  of both texts. It is the least cost of an alignment: a way to
  turn one text into the other, from its start to its end, by
  insertions, deletions, replacements and transpositions of
  adjacent characters, where no character is edited twice.

  Key definitions include:
    * `Suggestion.lastFirst`, `Suggestion.alignmentDistance`
    * `Suggestion.Alignment`

  Main declarations:
    * `Suggestion.isLeast_lastFirst`
    * `Suggestion.alignmentDistance_comm`
    * `Suggestion.Alignment.exists_row`
-/

------------------------------------------------------------
-- Recursion on Prefixes
------------------------------------------------------------

namespace GraphQL

namespace Suggestion

/-
  The least cost that ends with an edit of the last characters:
  one is deleted, one is inserted, or one stands for the other.
-/
def singleEdit (c d : Char) (up left diagonal : Nat) : Nat :=
  min (min (up + 1) (left + 1))
    (diagonal + if c = d then 0 else 1)

/-
  The distance of two texts whose last characters stand first.
  Behind two characters on either side the last ones may also
  have changed places.
-/
def lastFirst : List Char → List Char → Nat
| [], b => b.length
| a, [] => a.length
| c :: a, d :: b =>
    let single :=
      singleEdit c d (lastFirst a (d :: b))
        (lastFirst (c :: a) b) (lastFirst a b)
    match a, b with
    | f :: a, e :: b =>
        if c = e ∧ f = d then
          min single (lastFirst a b + 1)
        else
          single
    | _, _ => single
termination_by a b => a.length + b.length

/- The distance of two texts. -/
def alignmentDistance (a b : List Char) : Nat :=
  lastFirst a.reverse b.reverse

/-
  Ways to turn one text into another, with their costs, where
  the last characters stand first.
-/
inductive Alignment : List Char → List Char → Nat → Prop where
  | nil : Alignment [] [] 0
  | delete
      {a b : List Char}
      {n : Nat}
      (c : Char) :
      Alignment a b n → Alignment (c :: a) b (n + 1)
  | insert
      {a b : List Char}
      {n : Nat}
      (d : Char) :
      Alignment a b n → Alignment a (d :: b) (n + 1)
  | keep
      {a b : List Char}
      {n : Nat}
      (c : Char) :
      Alignment a b n → Alignment (c :: a) (c :: b) n
  | replace
      {a b : List Char}
      {n : Nat}
      (c d : Char) :
      Alignment a b n →
      Alignment (c :: a) (d :: b) (n + 1)
  | swap
      {a b : List Char}
      {n : Nat}
      (c d : Char) :
      Alignment a b n →
      Alignment (c :: d :: a) (d :: c :: b) (n + 1)

variable {a b : List Char} {n : Nat}

------------------------------------------------------------
-- Least Costs
------------------------------------------------------------

namespace Alignment

/- Turned around, insertions and deletions change places. -/
theorem symm (h : Alignment a b n) : Alignment b a n := by
  induction h with
  | nil => exact .nil
  | delete c _ ih => exact .insert c ih
  | insert d _ ih => exact .delete d ih
  | keep c _ ih => exact .keep c ih
  | replace c d _ ih => exact .replace d c ih
  | swap c d _ ih => exact .swap d c ih

/- Texts of different lengths are at least that far apart. -/
theorem length_le (h : Alignment a b n) :
    a.length ≤ b.length + n := by
  induction h with
  | nil => exact Nat.zero_le _
  | _ => simp only [List.length_cons]; omega

/- All characters may be deleted. -/
theorem deleteAll (a : List Char) :
    Alignment a [] a.length := by
  induction a with
  | nil => exact .nil
  | cons c a ih => exact .delete c ih

/-
  Every alignment passes through the row above: one that skips
  it by a transposition costs no less than one that ends there
  with a replacement.
-/
theorem exists_above
    {c : Char}
    (h : Alignment (c :: a) b n) :
    ∃ b' m, b' <:+ b ∧ m ≤ n ∧ Alignment a b' m := by
  generalize hText : c :: a = text at h
  induction h generalizing c a with
  | nil => cases hText
  | delete e h _ =>
      cases hText
      exact ⟨_, _, List.suffix_refl _, Nat.le_succ _, h⟩
  | insert d _ ih =>
      rcases ih hText with ⟨b', m, hSuffix, hLe, hRest⟩
      exact ⟨b', m, hSuffix.trans (List.suffix_cons _ _),
        hLe.trans (Nat.le_succ _), hRest⟩
  | keep e h _ =>
      cases hText
      exact ⟨_, _, List.suffix_cons _ _, Nat.le_refl _, h⟩
  | replace e d h _ =>
      cases hText
      exact ⟨_, _, List.suffix_cons _ _, Nat.le_succ _, h⟩
  | swap e d h _ =>
      cases hText
      exact ⟨_, _, List.suffix_cons _ _, Nat.le_refl _,
        .replace d e h⟩

/- Every alignment passes through all rows above. -/
theorem exists_row
    (above : List Char)
    (h : Alignment (above ++ a) b n) :
    ∃ b' m, b' <:+ b ∧ m ≤ n ∧ Alignment a b' m := by
  induction above generalizing b n with
  | nil => exact ⟨b, n, List.suffix_refl b, Nat.le_refl n, h⟩
  | cons c above ih =>
      rcases exists_above h with ⟨b₁, m₁, hSuffix, hLe, h₁⟩
      rcases ih h₁ with ⟨b₂, m₂, hSuffix₂, hLe₂, h₂⟩
      exact ⟨b₂, m₂, hSuffix₂.trans hSuffix, hLe₂.trans hLe, h₂⟩

end Alignment

/- The cheaper of two alignments is one. -/
theorem Alignment.least
    {m : Nat}
    (h : Alignment a b m)
    (h' : Alignment a b n) :
    Alignment a b (min m n) := by
  by_cases hLe : m ≤ n
  · rwa [Nat.min_eq_left hLe]
  · rwa [Nat.min_eq_right (Nat.le_of_not_le hLe)]

/- A character stands for another, at no cost for itself. -/
theorem Alignment.stand
    (c d : Char)
    (h : Alignment a b n) :
    Alignment (c :: a) (d :: b)
      (n + if c = d then 0 else 1) := by
  by_cases hSame : c = d
  · rw [if_pos hSame, hSame]
    exact .keep d h
  · rw [if_neg hSame]
    exact .replace c d h

/- Single edits of shorter alignments are alignments. -/
theorem Alignment.single
    {c d : Char}
    {up left diagonal : Nat}
    (hUp : Alignment a (d :: b) up)
    (hLeft : Alignment (c :: a) b left)
    (hDiagonal : Alignment a b diagonal) :
    Alignment (c :: a) (d :: b)
      (singleEdit c d up left diagonal) := by
  apply least
  · apply least
    · exact .delete c hUp
    · exact .insert d hLeft
  · exact stand c d hDiagonal

/- The distance is the cost of some alignment. -/
theorem alignment_lastFirst (a b : List Char) :
    Alignment a b (lastFirst a b) := by
  fun_induction lastFirst a b with
  | case1 b => exact (Alignment.deleteAll b).symm
  | case2 a _ => exact .deleteAll a
  | case3 c d f a e b hSwap single hUp hLeft hDiagonal hTwo =>
      rcases hSwap with ⟨rfl, rfl⟩
      apply Alignment.least
      · exact .single hUp hLeft hDiagonal
      · exact .swap c f hTwo
  | case4 c d f a e b _ single hUp hLeft hDiagonal =>
      exact .single hUp hLeft hDiagonal
  | case5 c a d b single _ hUp hLeft hDiagonal =>
      exact .single hUp hLeft hDiagonal

theorem lastFirst_nil (b : List Char) :
    lastFirst [] b = b.length := by
  rw [lastFirst]

theorem lastFirst_nil_right (a : List Char) :
    lastFirst a [] = a.length := by
  cases a with
  | nil => exact lastFirst_nil []
  | cons c a =>
      rw [lastFirst]
      exact List.cons_ne_nil c a

/- With two characters each, the last ones may be swapped. -/
theorem lastFirst_swap
    (c d e f : Char)
    (a b : List Char) :
    lastFirst (c :: f :: a) (d :: e :: b) =
      if c = e ∧ f = d then
        min
          (singleEdit c d (lastFirst (f :: a) (d :: e :: b))
            (lastFirst (c :: f :: a) (e :: b))
            (lastFirst (f :: a) (e :: b)))
          (lastFirst a b + 1)
      else
        singleEdit c d (lastFirst (f :: a) (d :: e :: b))
          (lastFirst (c :: f :: a) (e :: b))
          (lastFirst (f :: a) (e :: b)) := by
  rw [lastFirst]

/- With only one, they are edited alone. -/
theorem lastFirst_single
    (c d : Char)
    (hShort : a = [] ∨ b = []) :
    lastFirst (c :: a) (d :: b) =
      singleEdit c d (lastFirst a (d :: b))
        (lastFirst (c :: a) b) (lastFirst a b) := by
  rw [lastFirst]
  intro f a' e b' hA hB
  rcases hShort with hShort | hShort
  · simp [hShort] at hA
  · simp [hShort] at hB

/- The distance is never above that of a single edit. -/
theorem lastFirst_le_singleEdit
    (c d : Char)
    (a b : List Char) :
    lastFirst (c :: a) (d :: b) ≤
      singleEdit c d (lastFirst a (d :: b))
        (lastFirst (c :: a) b) (lastFirst a b) := by
  match a, b with
  | [], b => exact (lastFirst_single c d (.inl rfl)).le
  | a, [] => exact (lastFirst_single c d (.inr rfl)).le
  | f :: a, e :: b =>
      rw [lastFirst_swap]
      split
      · exact Nat.min_le_left _ _
      · exact Nat.le_refl _

/- No alignment costs less. -/
theorem lastFirst_le (h : Alignment a b n) :
    lastFirst a b ≤ n := by
  induction h with
  | nil => exact (lastFirst_nil []).le
  | @delete a b n c h ih =>
      cases b with
      | nil =>
          rw [lastFirst_nil_right] at ih ⊢
          exact Nat.succ_le_succ ih
      | cons d b =>
          have hLe := lastFirst_le_singleEdit c d a b
          rw [singleEdit] at hLe
          omega
  | @insert a b n d h ih =>
      cases a with
      | nil =>
          rw [lastFirst_nil] at ih ⊢
          exact Nat.succ_le_succ ih
      | cons c a =>
          have hLe := lastFirst_le_singleEdit c d a b
          rw [singleEdit] at hLe
          omega
  | @keep a b n c h ih =>
      have hLe := lastFirst_le_singleEdit c c a b
      rw [singleEdit, if_pos rfl] at hLe
      omega
  | @replace a b n c d h ih =>
      have hLe := lastFirst_le_singleEdit c d a b
      have hCost : (if c = d then 0 else 1) ≤ 1 := by
        split <;> omega
      rw [singleEdit] at hLe
      omega
  | @swap a b n c d h ih =>
      rw [lastFirst_swap, if_pos ⟨rfl, rfl⟩]
      omega

/- The distance is the least cost of an alignment. -/
theorem isLeast_lastFirst (a b : List Char) :
    IsLeast {n | Alignment a b n} (lastFirst a b) := by
  constructor
  · exact alignment_lastFirst a b
  · intro n h
    exact lastFirst_le h

------------------------------------------------------------
-- Distances of Texts
------------------------------------------------------------

theorem alignmentDistance_nil (b : List Char) :
    alignmentDistance [] b = b.length := by
  rw [alignmentDistance, List.reverse_nil, lastFirst_nil,
    List.length_reverse]

theorem alignmentDistance_nil_right (a : List Char) :
    alignmentDistance a [] = a.length := by
  rw [alignmentDistance, List.reverse_nil,
    lastFirst_nil_right, List.length_reverse]

/- The recursion, where one text has one character. -/
theorem alignmentDistance_single
    (c d : Char)
    (hShort : a = [] ∨ b = []) :
    alignmentDistance (a ++ [c]) (b ++ [d]) =
      singleEdit c d (alignmentDistance a (b ++ [d]))
        (alignmentDistance (a ++ [c]) b)
        (alignmentDistance a b) := by
  simp only [alignmentDistance, List.reverse_concat]
  apply lastFirst_single
  simpa only [List.reverse_eq_nil_iff] using hShort

/- The recursion, where both have two. -/
theorem alignmentDistance_swap
    (c d e f : Char)
    (a b : List Char) :
    alignmentDistance (a ++ [f] ++ [c]) (b ++ [e] ++ [d]) =
      if c = e ∧ f = d then
        min
          (singleEdit c d
            (alignmentDistance (a ++ [f]) (b ++ [e] ++ [d]))
            (alignmentDistance (a ++ [f] ++ [c]) (b ++ [e]))
            (alignmentDistance (a ++ [f]) (b ++ [e])))
          (alignmentDistance a b + 1)
      else
        singleEdit c d
          (alignmentDistance (a ++ [f]) (b ++ [e] ++ [d]))
          (alignmentDistance (a ++ [f] ++ [c]) (b ++ [e]))
          (alignmentDistance (a ++ [f]) (b ++ [e])) := by
  simp only [alignmentDistance, List.reverse_concat]
  exact lastFirst_swap c d e f a.reverse b.reverse

/- Which of two texts comes first does not matter. -/
theorem alignmentDistance_comm (a b : List Char) :
    alignmentDistance a b = alignmentDistance b a := by
  apply Nat.le_antisymm
  · exact lastFirst_le (alignment_lastFirst _ _).symm
  · exact lastFirst_le (alignment_lastFirst _ _).symm

/- Texts are at least as far apart as their lengths. -/
theorem length_sub_le_alignmentDistance (a b : List Char) :
    a.length - b.length ≤ alignmentDistance a b := by
  have hLe :=
    (alignment_lastFirst a.reverse b.reverse).length_le
  rw [List.length_reverse, List.length_reverse] at hLe
  rw [alignmentDistance]
  omega

/-
  If all texts that another starts with are beyond a threshold
  from the start of a text, then so are they from the text.
-/
theorem lt_alignmentDistance_of_row
    {threshold : Nat}
    {start rest : List Char}
    (hRow : ∀ b', b' <+: b →
      threshold < alignmentDistance start b') :
    threshold < alignmentDistance (start ++ rest) b := by
  have hAligned :=
    alignment_lastFirst (start ++ rest).reverse b.reverse
  rw [List.reverse_append] at hAligned
  rcases hAligned.exists_row rest.reverse with
    ⟨b', m, hSuffix, hLe, hStart⟩
  have hBeyond := hRow b'.reverse (by
    rw [← List.reverse_suffix, List.reverse_reverse]
    exact hSuffix)
  rw [alignmentDistance, List.reverse_reverse] at hBeyond
  rw [alignmentDistance, List.reverse_append]
  have hStartLe := lastFirst_le hStart
  omega

end Suggestion

end GraphQL
