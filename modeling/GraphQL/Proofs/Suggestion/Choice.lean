import GraphQL.Proofs.Suggestion.RollingRows
import GraphQL.Validation.KnownTypeNames

/-
  The options that are suggested for an input.

  They are the options within the threshold of the input, from
  the closest on, where texts decide between options that are
  equally close. Sorting makes repeated options adjacent, so
  none is left when adjacent ones are dropped: the suggestions
  depend on which options there are, and on nothing else.

  Key definitions include:
    * `Suggestion.lexicalDistance`
    * `Suggestion.Precedes`

  Main declarations:
    * `Suggestion.distance?_eq`
    * `Suggestion.closest_exact`
-/

------------------------------------------------------------
-- Distances of Options
------------------------------------------------------------

namespace GraphQL

namespace Suggestion

/-
  The distance of an option: nothing for the input itself, one
  for the same text in lower case, else that in lower case.
-/
def lexicalDistance (input option : String) : Nat :=
  if input = option then
    0
  else if Text.lowercase input = Text.lowercase option then
    1
  else
    alignmentDistance (Text.lowercase input)
      (Text.lowercase option)

/- The order of suggestions: by distance, then by text. -/
def Precedes (input a b : String) : Prop :=
  lexicalDistance input a < lexicalDistance input b ∨
    lexicalDistance input a = lexicalDistance input b ∧ a < b

instance (input a b : String) :
    Decidable (Precedes input a b) :=
  inferInstanceAs (Decidable (_ ∨ _))

variable {input option a b c : String}

/- A distance is found exactly if it is within the threshold. -/
theorem distance?_eq
    {threshold : Nat}
    (hThreshold : 1 ≤ threshold) :
    distance? threshold input option =
      if lexicalDistance input option ≤ threshold then
        some (lexicalDistance input option)
      else
        none := by
  simp only [distance?, measure, lexicalDistance,
    alignment_of_texts]
  by_cases hEqual : input = option
  · simp [hEqual, Except.toOption]
  · by_cases hLower :
        Text.lowercase input = Text.lowercase option
    · simp [hEqual, hLower, hThreshold, Except.toOption]
    · simp [hEqual, hLower, Except.toOption]

------------------------------------------------------------
-- Order
------------------------------------------------------------

theorem Precedes.ne (h : Precedes input a b) : a ≠ b := by
  intro hEqual
  rw [hEqual] at h
  rcases h with h | ⟨-, h⟩
  · exact Nat.lt_irrefl _ h
  · exact String.lt_irrefl b h

theorem Precedes.asymm
    (h : Precedes input a b) :
    ¬ Precedes input b a := by
  intro h'
  rcases h with h | ⟨hDistance, h⟩
  · rcases h' with h' | ⟨hDistance', -⟩
    · exact Nat.lt_asymm h h'
    · omega
  · rcases h' with h' | ⟨-, h'⟩
    · omega
    · exact String.lt_asymm h h'

/- Options in order are different from each other. -/
theorem nodup_of_pairwise
    {options : List String}
    (h : options.Pairwise (Precedes input)) :
    options.Nodup :=
  h.imp Precedes.ne

/- There is one list of given options that is in order. -/
theorem eq_of_pairwise_of_mem_iff
    {options others : List String}
    (hOptions : options.Pairwise (Precedes input))
    (hOthers : others.Pairwise (Precedes input))
    (hMem : ∀ option, option ∈ options ↔ option ∈ others) :
    options = others := by
  have hPerm : options.Perm others :=
    (List.perm_ext_iff_of_nodup (nodup_of_pairwise hOptions)
      (nodup_of_pairwise hOthers)).2 hMem
  apply hPerm.eq_of_pairwise _ hOptions hOthers
  intro a b _ _ hBefore hAfter
  exact absurd hAfter hBefore.asymm

------------------------------------------------------------
-- Sorted Candidates
------------------------------------------------------------

theorem closer_iff {a b : Nat × String} :
    closer a b = true ↔
      a.1 < b.1 ∨ a.1 = b.1 ∧ a.2 ≤ b.2 := by
  simp [closer]

/- Candidates that are no closer than each other are equal. -/
theorem eq_of_closer
    {a b : Nat × String}
    (h : closer a b = true)
    (h' : closer b a = true) :
    a = b := by
  rw [closer_iff] at h h'
  have hDistance : a.1 = b.1 := by omega
  have hLe : a.2 ≤ b.2 := by
    rcases h with h | h
    · omega
    · exact h.2
  have hGe : b.2 ≤ a.2 := by
    rcases h' with h' | h'
    · omega
    · exact h'.2
  exact Prod.ext hDistance (String.le_antisymm hLe hGe)

/- Sorted candidates are in order. -/
theorem pairwise_mergeSort_closer
    (candidates : List (Nat × String)) :
    (candidates.mergeSort closer).Pairwise
      fun a b => closer a b = true := by
  apply List.pairwise_mergeSort
  · intro a b c hAB hBC
    rw [closer_iff] at hAB hBC ⊢
    rcases hAB with hAB | ⟨hAB, hLe⟩
    · left
      omega
    · rcases hBC with hBC | ⟨hBC, hLe'⟩
      · left
        omega
      · right
        exact ⟨hAB.trans hBC, String.le_trans hLe hLe'⟩
  · intro a b
    rw [Bool.or_eq_true, closer_iff, closer_iff]
    rcases Nat.lt_trichotomy a.1 b.1 with h | h | h
    · exact .inl (.inl h)
    · rcases String.le_total a.2 b.2 with hLe | hGe
      · exact .inl (.inr ⟨h, hLe⟩)
      · exact .inr (.inr ⟨h.symm, hGe⟩)
    · exact .inr (.inl h)

------------------------------------------------------------
-- Repeated Candidates
------------------------------------------------------------

/- Each candidate stands beside its own distance. -/
def Measured
    (input : String) (candidates : List (Nat × String)) :
    Prop :=
  ∀ candidate ∈ candidates,
    candidate.1 = lexicalDistance input candidate.2

/- A candidate is determined by its text. -/
theorem Measured.eq_of_text
    {candidates : List (Nat × String)}
    {a b : Nat × String}
    (h : Measured input candidates)
    (hA : a ∈ candidates)
    (hB : b ∈ candidates)
    (hText : a.2 = b.2) :
    a = b := by
  apply Prod.ext _ hText
  rw [h a hA, h b hB, hText]

/- Of different texts the closer one precedes the other. -/
theorem Measured.precedes
    {candidates : List (Nat × String)}
    {a b : Nat × String}
    (h : Measured input candidates)
    (hA : a ∈ candidates)
    (hB : b ∈ candidates)
    (hCloser : closer a b = true)
    (hText : a.2 ≠ b.2) :
    Precedes input a.2 b.2 := by
  rw [Precedes, ← h a hA, ← h b hB]
  rcases closer_iff.1 hCloser with hLess | ⟨hEqual, hLe⟩
  · exact .inl hLess
  · refine .inr ⟨hEqual, ?_⟩
    apply String.not_le.1
    intro hGe
    exact hText (String.le_antisymm hLe hGe)

/- A candidate is dropped only behind an equal one. -/
theorem Measured.mem_dropRepeats_iff
    {candidates : List (Nat × String)}
    {candidate : Nat × String}
    (h : Measured input candidates) :
    candidate ∈ dropRepeats candidates ↔
      candidate ∈ candidates := by
  induction candidates using dropRepeats.induct with
  | case1 => rw [dropRepeats]
  | case2 a => rw [dropRepeats]
  | case3 a b rest hSame ih =>
      have hEqual : a = b :=
        h.eq_of_text (by simp) (by simp) hSame
      have hRest : Measured input (a :: rest) := by
        intro other hOther
        rw [hEqual] at hOther
        exact h other (List.mem_cons_of_mem a hOther)
      rw [dropRepeats, if_pos hSame, ih hRest, ← hEqual]
      simp only [List.mem_cons, or_self_left]
  | case4 a b rest hOther ih =>
      have hRest : Measured input (b :: rest) := by
        intro other hOther
        exact h other (List.mem_cons_of_mem a hOther)
      rw [dropRepeats, if_neg hOther, List.mem_cons,
        ih hRest, ← List.mem_cons]

/- What is left of sorted candidates is strictly in order. -/
theorem Measured.pairwise_dropRepeats
    {candidates : List (Nat × String)}
    (h : Measured input candidates)
    (hSorted : candidates.Pairwise
      fun a b => closer a b = true) :
    (dropRepeats candidates).Pairwise
      fun a b => Precedes input a.2 b.2 := by
  induction candidates using dropRepeats.induct with
  | case1 =>
      rw [dropRepeats]
      exact .nil
  | case2 a =>
      rw [dropRepeats]
      exact List.pairwise_singleton _ a
  | case3 a b rest hSame ih =>
      rw [dropRepeats, if_pos hSame]
      have hSublist : (a :: rest).Sublist (a :: b :: rest) :=
        (List.sublist_cons_self b rest).cons_cons a
      apply ih
      · intro other hOther
        exact h other (hSublist.subset hOther)
      · exact hSorted.sublist hSublist
  | case4 a b rest hOther ih =>
      have hRest : Measured input (b :: rest) := by
        intro other hMem
        exact h other (List.mem_cons_of_mem a hMem)
      rcases List.pairwise_cons.1 hSorted with ⟨hFirst, hTail⟩
      rw [dropRepeats, if_neg hOther, List.pairwise_cons]
      refine ⟨?_, ih hRest hTail⟩
      intro later hLater
      rw [hRest.mem_dropRepeats_iff] at hLater
      have hMem : later ∈ a :: b :: rest :=
        List.mem_cons_of_mem a hLater
      apply h.precedes (by simp) hMem (hFirst later hLater)
      -- A text that comes again is not parted from itself.
      intro hText
      have hEqual := h.eq_of_text (by simp) hMem hText
      rcases List.mem_cons.1 hLater with hB | hLater
      · rw [hB] at hText
        exact hOther hText
      · have hAfter :=
          (List.pairwise_cons.1 hTail).1 later hLater
        rw [← hEqual] at hAfter
        have hBetween :=
          eq_of_closer (hFirst b (by simp)) hAfter
        exact hOther (congrArg Prod.snd hBetween)

------------------------------------------------------------
-- Suggestions
------------------------------------------------------------

/- The options within the threshold, with their distances. -/
def candidates (input : String) (options : List String) :
    List (Nat × String) :=
  options.filterMap fun option =>
    (distance? (threshold input) input option).map fun d =>
      (d, option)

theorem closest_eq (input : String) (options : List String) :
    closest input options =
      (dropRepeats
        ((candidates input options).mergeSort closer)).map
          Prod.snd :=
  rfl

theorem mem_candidates_iff
    {options : List String}
    {candidate : Nat × String} :
    candidate ∈ candidates input options ↔
      candidate.2 ∈ options ∧
        lexicalDistance input candidate.2 ≤ threshold input ∧
        candidate.1 = lexicalDistance input candidate.2 := by
  have hThreshold : 1 ≤ threshold input := by
    rw [threshold]
    omega
  simp only [candidates, List.mem_filterMap,
    distance?_eq hThreshold, Option.map_eq_some_iff,
    Option.ite_none_right_eq_some, Option.some.injEq]
  constructor
  · intro ⟨option, hOption, d, ⟨hWithin, hDistance⟩, hPair⟩
    rw [← hPair]
    exact ⟨hOption, hWithin, hDistance.symm⟩
  · intro ⟨hOption, hWithin, hDistance⟩
    exact ⟨candidate.2, hOption, candidate.1,
      ⟨hWithin, hDistance.symm⟩, rfl⟩

theorem measured_mergeSort
    (input : String)
    (options : List String) :
    Measured input
      ((candidates input options).mergeSort closer) := by
  intro candidate hCandidate
  rw [List.mem_mergeSort, mem_candidates_iff] at hCandidate
  exact hCandidate.2.2

/- Suggestions are strictly in order. -/
theorem pairwise_closest
    (input : String)
    (options : List String) :
    (closest input options).Pairwise (Precedes input) := by
  rw [closest_eq, List.pairwise_map]
  apply (measured_mergeSort input options).pairwise_dropRepeats
  exact pairwise_mergeSort_closer _

/- The suggestions are the options within the threshold. -/
theorem mem_closest_iff {options : List String} :
    option ∈ closest input options ↔
      option ∈ options ∧
        lexicalDistance input option ≤ threshold input := by
  simp only [closest_eq, List.mem_map,
    (measured_mergeSort input options).mem_dropRepeats_iff,
    List.mem_mergeSort, mem_candidates_iff]
  constructor
  · intro ⟨candidate, ⟨hMem, hWithin, _⟩, hText⟩
    rw [← hText]
    exact ⟨hMem, hWithin⟩
  · intro ⟨hMem, hWithin⟩
    exact ⟨(lexicalDistance input option, option),
      ⟨hMem, hWithin, rfl⟩, rfl⟩

/- The same options, in any order, give the same suggestions. -/
theorem closest_eq_of_mem_iff
    {options others : List String}
    (h : ∀ option, option ∈ options ↔ option ∈ others) :
    closest input options = closest input others := by
  apply eq_of_pairwise_of_mem_iff
    (pairwise_closest input options)
    (pairwise_closest input others)
  intro option
  rw [mem_closest_iff, mem_closest_iff, h option]

end Suggestion

------------------------------------------------------------
-- Unknown Names
------------------------------------------------------------

namespace KnownTypeNames

/- A message goes by the set of known names. -/
theorem unknownName_eq_of_mem_iff
    {options others : List String}
    (ref : Reference)
    (h : ∀ option, option ∈ options ↔ option ∈ others) :
    unknownName options ref = unknownName others ref := by
  unfold unknownName
  dsimp only
  rw [Suggestion.closest_eq_of_mem_iff h]

/-
  In whatever order the names of a document are supplied, and
  how often each of them, its unknown names are reported alike.
-/
theorem checkTypeSystem_eq
    {document : TypeSystemDocument}
    {names : List String}
    (schema? : Option Schema)
    (h : ∀ name, name ∈ names ↔ name ∈ definedNames document) :
    checkTypeSystem schema? document =
      ((typeSystemReferences document).filter fun ref =>
        !isKnown schema? document ref.name).map
          (unknownName (standardNames ++ names)) := by
  unfold checkTypeSystem
  apply List.map_congr_left
  intro ref _
  apply unknownName_eq_of_mem_iff
  intro option
  rw [List.mem_append, List.mem_append, h option]

end KnownTypeNames

/-
  What is suggested for any input and any list of options:
  strictly in order of distance and text, without repetition,
  exactly the options within the threshold. So the suggestions,
  and the messages that name them, go by the set of options.
-/
theorem Suggestion.closest_exact (input : String) :
    (∀ options : List String,
      (closest input options).Pairwise (Precedes input) ∧
        (closest input options).Nodup ∧
        ∀ option, option ∈ closest input options ↔
          option ∈ options ∧
            lexicalDistance input option ≤
              2 * input.length / 5 + 1) ∧
      (∀ options others : List String,
        (∀ option, option ∈ options ↔ option ∈ others) →
        closest input options = closest input others) ∧
      ∀ (schema? : Option Schema)
        (document : TypeSystemDocument)
        (names : List String),
        (∀ name, name ∈ names ↔
          name ∈ KnownTypeNames.definedNames document) →
        KnownTypeNames.checkTypeSystem schema? document =
          ((KnownTypeNames.typeSystemReferences document).filter
            fun ref => !KnownTypeNames.isKnown schema? document
              ref.name).map
            (KnownTypeNames.unknownName
              (KnownTypeNames.standardNames ++ names)) := by
  refine ⟨?_, ?_, ?_⟩
  · intro options
    have hOrder := pairwise_closest input options
    refine ⟨hOrder, nodup_of_pairwise hOrder, ?_⟩
    intro option
    rw [mem_closest_iff, threshold, Nat.mul_comm]
  · intro options others hSame
    exact closest_eq_of_mem_iff hSame
  · intro schema? document names hNames
    exact KnownTypeNames.checkTypeSystem_eq schema? hNames

/-
  The text itself, and then what is one and two letters away, in
  whatever order and however often the options come.
-/
theorem Suggestion.closest_to_abc :
    closest "abc" ["a", "ab", "xyz", "abc"] =
        ["abc", "ab", "a"] ∧
      closest "abc" ["abc", "a", "xyz", "ab", "a"] =
        closest "abc" ["a", "ab", "xyz", "abc"] := by
  have hExact := closest_exact "abc"
  constructor
  · rcases hExact.1 ["a", "ab", "xyz", "abc"] with
      ⟨hOrder, _, hMem⟩
    apply eq_of_pairwise_of_mem_iff hOrder
    · decide +kernel
    · intro option
      rw [hMem option]
      simp only [List.mem_cons, List.not_mem_nil, or_false]
      constructor
      · intro ⟨hOption, hWithin⟩
        rcases hOption with hA | hAB | hFar | hABC
        · exact .inr (.inr hA)
        · exact .inr (.inl hAB)
        · rw [hFar] at hWithin
          exact absurd hWithin (by decide +kernel)
        · exact .inl hABC
      · intro hOption
        rcases hOption with hABC | hAB | hA
        · rw [hABC]
          decide +kernel
        · rw [hAB]
          decide +kernel
        · rw [hA]
          decide +kernel
  · apply hExact.2.1
    intro option
    simp only [List.mem_cons, List.not_mem_nil, or_false]
    tauto

end GraphQL
