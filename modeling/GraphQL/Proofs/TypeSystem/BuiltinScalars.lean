import GraphQL.TypeSystem.BuiltinScalar
import GraphQL.Proofs.Number.Integers
import GraphQL.Proofs.Number.Notation

/-
  What the built-in scalar types make of values.

  What a scalar writes it takes back unchanged. Integers are
  written and read as what they denote, and refused outside
  their 32 bits. Identifiers that are integers are exact as
  inputs; as outputs they are cut off above the greatest
  signed 64-bit integer, and soon after refused.

  Key definitions include:
    * `BuiltinScalar.Denotes`: the integer a value stands for
    * `BuiltinScalar.IsInt32`: integers as `Int` writes them

  Main declarations:
    * `BuiltinScalar.written_is_read`
    * `BuiltinScalar.id_of_integer`
-/

------------------------------------------------------------
-- Whole Numbers
------------------------------------------------------------

namespace GraphQL

namespace BuiltinScalar

open Binary64 (divNearest ofInt_of_large le_divNearest)

/- The integer of a fraction, unless it has too many bits. -/
theorem wholeFraction?_of_integer?
    {x : Binary64}
    {n : Int}
    (h : x.integer? = some n) :
    wholeFraction? x =
      if n.natAbs ≤ twoTo 63 then some (min n Json.maxSigned)
      else none := by
  rw [wholeFraction?, h]

/- Integers of 64 bits and more are too large to be signed. -/
theorem not_signed
    {n : Nat}
    (h : twoTo 63 ≤ n) : ¬ (n : Int) ≤ Json.maxSigned := by
  unfold Json.maxSigned
  omega

/- Integers of 65 bits and more are not whole. -/
theorem whole?_of_large
    {n : Nat}
    (h : twoTo 64 ≤ n) : whole? (.integer n) = none := by
  have hNonzero : n ≠ 0 := by
    rintro rfl
    exact absurd h (by decide)
  have hBits : 64 ≤ n.log2 := (Nat.le_log2 hNonzero).2 h
  rcases ofInt_of_large (n := n) (by omega) with
    ⟨x, hValue, -, hRounded⟩
  have hPower : twoTo (n.log2 - 52) * twoTo 52 = twoTo n.log2 :=
    twoTo_sub_mul (by omega)
  have hKept : twoTo 52 ≤ divNearest n (twoTo (n.log2 - 52)) := by
    refine le_divNearest (Nat.pow_pos (by decide)) ?_
    rw [Nat.mul_comm, hPower]
    exact Nat.log2_self_le hNonzero
  have hLarge : twoTo 64 ≤
      divNearest n (twoTo (n.log2 - 52)) *
        twoTo (n.log2 - 52) := by
    calc twoTo 64 ≤ twoTo n.log2 :=
          Nat.pow_le_pow_right (by decide) hBits
      _ = twoTo 52 * twoTo (n.log2 - 52) := by
          rw [Nat.mul_comm, hPower]
      _ ≤ _ := Nat.mul_le_mul_right _ hKept
  rw [whole?, if_neg (not_signed (Nat.le_trans (by decide) h)),
    hRounded]
  split
  · next y hFinite =>
      split at hFinite
      · cases hFinite
        rw [wholeFraction?_of_integer? hValue, if_neg]
        rw [Int.natAbs_natCast]
        exact Nat.not_le.2 (Nat.lt_of_lt_of_le (by decide) hLarge)
      · cases hFinite
  · rfl

/- Up to half a unit above `2 ^ 63`, rounding goes down. -/
theorem rounds_to_end_iff
    {n : Nat}
    (h : twoTo 63 ≤ n) :
    divNearest n (twoTo 11) * twoTo 11 ≤ twoTo 63 ↔
      n ≤ twoTo 63 + 1024 := by
  simp only [divNearest, twoTo, Nat.reducePow, Nat.pow_eq] at h ⊢
  split
  all_goals omega

/-
  Integers of 64 bits are rounded to multiples of 2048. Those
  that are rounded to `2 ^ 63` are cut off, the others refused.
-/
theorem whole?_of_bits
    {n : Nat}
    (hLeast : twoTo 63 ≤ n)
    (hLess : n < twoTo 64) :
    whole? (.integer n) =
      if n ≤ twoTo 63 + 1024 then some Json.maxSigned
      else none := by
  have hNonzero : n ≠ 0 := by
    rintro rfl
    exact absurd hLeast (by decide)
  have hBits : n.log2 = 63 :=
    (Nat.log2_eq_iff hNonzero).2 ⟨hLeast, hLess⟩
  rcases ofInt_of_large (n := n) (by omega) with
    ⟨x, hValue, hExponent, hRounded⟩
  have hFinite : x.exponent ≤ Binary64.maxExponent := by
    rw [hBits] at hExponent
    exact hExponent.trans (by decide)
  rw [hBits] at hValue
  rw [whole?, if_neg (not_signed hLeast), hRounded,
    if_pos hFinite]
  simp only [Binary64.Extended.finite?]
  rw [wholeFraction?_of_integer? hValue, Int.natAbs_natCast]
  have hRounds := rounds_to_end_iff hLeast
  have hNotLess : twoTo 63 ≤
      divNearest n (twoTo 11) * twoTo 11 :=
    Nat.mul_le_mul_right (twoTo 11) (le_divNearest (by decide)
      (show twoTo 52 * twoTo 11 ≤ n from hLeast))
  by_cases hNear : n ≤ twoTo 63 + 1024
  · have hEnd : divNearest n (twoTo 11) * twoTo 11 = twoTo 63 :=
      Nat.le_antisymm (hRounds.2 hNear) hNotLess
    rw [if_pos hNear, show 63 - 52 = 11 from rfl, hEnd,
      if_pos (Nat.le_refl _)]
    exact congrArg some (Int.min_eq_right (by decide))
  · rw [if_neg hNear, if_neg (mt hRounds.1 hNear)]

/-
  Integers up to the greatest signed one are whole, and the
  next 1025 are taken for it.
-/
theorem whole?_integer (n : Int) :
    whole? (.integer n) =
      if n ≤ Json.maxSigned then some n
      else if n ≤ Json.maxSigned + 1025 then some Json.maxSigned
      else none := by
  by_cases hSigned : n ≤ Json.maxSigned
  · rw [whole?, if_pos hSigned, if_pos hSigned]
  have hPositive : 0 ≤ n :=
    Int.le_of_lt (Int.lt_of_le_of_lt (by decide)
      (Int.not_le.1 hSigned))
  rcases Int.eq_ofNat_of_zero_le hPositive with ⟨k, rfl⟩
  unfold Json.maxSigned at hSigned
  rw [if_neg (by unfold Json.maxSigned; exact hSigned)]
  by_cases hLess : k < twoTo 64
  · rw [whole?_of_bits (by omega) hLess]
    refine if_congr ?_ rfl rfl
    unfold Json.maxSigned
    omega
  · have hBeyond : ¬ (k : Int) ≤ Json.maxSigned + 1025 := by
      have hGap : twoTo 63 + 1025 ≤ twoTo 64 := by decide
      unfold Json.maxSigned
      omega
    rw [whole?_of_large (Nat.not_lt.1 hLess), if_neg hBeyond]

------------------------------------------------------------
-- Denoted Integers
------------------------------------------------------------

/-
  The integer that a value stands for: a number without
  fractional part, a truth value as 0 or 1, or a text that
  spells it between blanks.
-/
inductive Denotes : Json → Int → Prop where
  | integer (n : Int) : Denotes (.number (.integer n)) n
  | fraction {x : Binary64} {n : Int}
      (h : x.toRat = n) : Denotes (.number (.fraction x)) n
  | bool (b : Bool) : Denotes (.bool b) (if b then 1 else 0)
  | text {text : String} {before inner after : List Char}
      {n : Int}
      (hText : text.toList = before ++ inner ++ after)
      (hBefore : ∀ c ∈ before, Text.isBlank c = true)
      (hAfter : ∀ c ∈ after, Text.isBlank c = true)
      (hInner : Notation.Spells inner n) :
      Denotes (.string text) n

/- An integer of 32 bits, as it is written. -/
def IsInt32 (n : Int) (written : Json) : Prop :=
  -2147483648 ≤ n ∧ n ≤ 2147483647 ∧ written = .ofInt n

theorem fits32_iff (n : Int) :
    fits32 n = true ↔ -2147483648 ≤ n ∧ n ≤ 2147483647 := by
  have hTop : (twoTo 31 : Int) = 2147483648 := rfl
  simp only [fits32, Bool.and_eq_true, decide_eq_true_eq, hTop]
  omega

theorem int32_eq_ok_iff
    {n : Int}
    {printed : String}
    {y : Json} :
    int32 n printed = .ok y ↔ IsInt32 n y := by
  rw [int32, IsInt32, ← and_assoc, ← fits32_iff]
  split
  · next hFits => simp [hFits, eq_comm]
  · next hFits => simp [hFits]

------------------------------------------------------------
-- Numbers
------------------------------------------------------------

/- Integers of 32 bits are far from where others are cut off. -/
theorem wholeFraction?_eq_some_iff
    {x : Binary64}
    {n : Int}
    (hFits : fits32 n = true) :
    wholeFraction? x = some n ↔ x.toRat = n := by
  rw [← Binary64.integer?_eq_some_iff]
  rw [fits32_iff] at hFits
  have hTop : twoTo 63 = 9223372036854775808 := rfl
  cases hWhole : x.integer? with
  | none => simp [wholeFraction?, hWhole]
  | some m =>
      rw [wholeFraction?_of_integer? hWhole, Json.maxSigned,
        hTop]
      split
      all_goals
        simp only [Option.some.injEq, reduceCtorEq, false_iff]
        omega

theorem whole?_eq_some_iff
    {number : Json.Number}
    {n : Int}
    (hFits : fits32 n = true) :
    whole? number = some n ↔ Denotes (.number number) n := by
  cases number with
  | integer m =>
      have hDenotes : Denotes (.number (.integer m)) n ↔ m = n :=
        ⟨by rintro ⟨⟩; rfl, by rintro rfl; exact .integer m⟩
      rw [hDenotes, whole?_integer]
      rw [fits32_iff] at hFits
      have hTop : Json.maxSigned = 9223372036854775807 := rfl
      rw [hTop]
      split
      · rw [Option.some.injEq]
      · split
        all_goals
          simp only [Option.some.injEq, reduceCtorEq, false_iff]
          omega
  | fraction x =>
      rw [whole?, wholeFraction?_eq_some_iff hFits]
      exact ⟨.fraction, fun | .fraction h => h⟩

------------------------------------------------------------
-- Texts
------------------------------------------------------------

theorem dropWhile_of_blank
    {before rest : List Char}
    (hBefore : ∀ c ∈ before, Text.isBlank c = true)
    (hRest : ∀ c ∈ rest.head?, Text.isBlank c = false) :
    (before ++ rest).dropWhile Text.isBlank = rest := by
  rw [List.dropWhile_append_of_pos hBefore]
  cases rest with
  | nil => rfl
  | cons c rest =>
      rw [List.dropWhile_cons_of_neg]
      rw [hRest c rfl]
      decide

/- The blanks around a text are taken off. -/
theorem trimmed_eq
    {text : String}
    {before inner after : List Char}
    (hText : text.toList = before ++ inner ++ after)
    (hBefore : ∀ c ∈ before, Text.isBlank c = true)
    (hAfter : ∀ c ∈ after, Text.isBlank c = true)
    (hNonempty : inner ≠ [])
    (hInner : ∀ c ∈ inner, Text.isBlank c = false) :
    trimmed text = inner := by
  have hFirst :
      ∀ c ∈ (inner ++ after).head?, Text.isBlank c = false := by
    intro c hc
    rw [List.head?_append_of_ne_nil inner hNonempty] at hc
    exact hInner c (List.mem_of_mem_head? hc)
  have hLast :
      ∀ c ∈ inner.reverse.head?, Text.isBlank c = false := by
    intro c hc
    exact hInner c
      (List.mem_reverse.1 (List.mem_of_mem_head? hc))
  rw [trimmed, hText, List.append_assoc,
    dropWhile_of_blank hBefore hFirst, List.reverse_append,
    dropWhile_of_blank (by simpa using hAfter) hLast,
    List.reverse_reverse]

/- A text is what is left of it between blanks. -/
theorem exists_blanks_around_trimmed (text : String) :
    ∃ before after : List Char,
      text.toList = before ++ trimmed text ++ after ∧
        (∀ c ∈ before, Text.isBlank c = true) ∧
        ∀ c ∈ after, Text.isBlank c = true := by
  refine ⟨text.toList.takeWhile Text.isBlank,
    (((text.toList.dropWhile Text.isBlank).reverse).takeWhile
      Text.isBlank).reverse, ?_, ?_, ?_⟩
  · rw [trimmed, List.append_assoc, ← List.reverse_append,
      List.takeWhile_append_dropWhile, List.reverse_reverse,
      List.takeWhile_append_dropWhile]
  · exact List.all_eq_true.1 List.all_takeWhile
  · exact fun c hc => List.all_eq_true.1 List.all_takeWhile c
      (List.mem_reverse.1 hc)

/- No sign and no digit is blank. -/
theorem not_blank_of_spelled
    {inner : List Char}
    {n : Int}
    (h : Notation.Spells inner n) :
    ∀ c ∈ inner, Text.isBlank c = false := by
  intro c hc
  rcases h.of_mem hc with rfl | rfl | hDigit
  · decide
  · decide
  · have hTable : ∀ k < 58, 48 ≤ k →
        (Text.blanks.any fun range =>
          range.1 ≤ k && k ≤ range.2) = false := by
      decide
    have hBounds : 48 ≤ c.toNat ∧ c.toNat ≤ 57 :=
      Char.isDigit_iff_toNat.1 hDigit
    exact hTable c.toNat (by omega) (by omega)

theorem wholeText?_eq_some_iff
    {text : String}
    {n : Int}
    (hFits : fits32 n = true) :
    wholeText? text = some n ↔ Denotes (.string text) n := by
  have hRead : wholeText? text = some n ↔
      Notation.integer? (trimmed text) = some n := by
    rw [fits32_iff] at hFits
    have hLeast : Json.minInteger = -9223372036854775808 := rfl
    have hTop : Json.maxSigned = 9223372036854775807 := rfl
    rw [wholeText?, hLeast, hTop]
    cases Notation.integer? (trimmed text) with
    | none => rfl
    | some m =>
        simp only
        split
        · rfl
        · simp only [reduceCtorEq, Option.some.injEq, false_iff]
          omega
  rw [hRead, Notation.integer?_eq_some_iff]
  constructor
  · intro hSpells
    rcases exists_blanks_around_trimmed text with
      ⟨before, after, hText, hBefore, hAfter⟩
    exact .text hText hBefore hAfter hSpells
  · rintro ⟨⟩
    next before inner after hBefore hAfter hText hSpells =>
      rw [trimmed_eq hText hBefore hAfter hSpells.ne_nil
        (not_blank_of_spelled hSpells)]
      exact hSpells

------------------------------------------------------------
-- Int
------------------------------------------------------------

/- A 32-bit integer comes of a value that denotes it. -/
theorem int32_of_whole_iff
    {whole? : Option Int}
    {value : Json}
    {e : LeafError}
    {printed : String}
    {y : Json}
    (h : ∀ n, fits32 n = true →
      (whole? = some n ↔ Denotes value n)) :
    (match whole? with
      | some n => int32 n printed
      | none => .error e) = .ok y ↔
      ∃ n, Denotes value n ∧ IsInt32 n y := by
  constructor
  · intro hOk
    split at hOk
    · next n =>
        have hWritten := int32_eq_ok_iff.1 hOk
        have hFits := (fits32_iff n).2
          ⟨hWritten.1, hWritten.2.1⟩
        exact ⟨n, (h n hFits).1 rfl, hWritten⟩
    · cases hOk
  · rintro ⟨n, hDenotes, hWritten⟩
    have hFits := (fits32_iff n).2 ⟨hWritten.1, hWritten.2.1⟩
    rw [(h n hFits).2 hDenotes]
    exact int32_eq_ok_iff.2 hWritten

/- Outputs are the integers that values denote. -/
theorem serializeInt_eq_ok_iff (x y : Json) :
    serializeInt x = .ok y ↔
      ∃ n, Denotes x n ∧ IsInt32 n y := by
  unfold serializeInt
  refine int32_of_whole_iff fun n hFits => ?_
  cases x with
  | number k => exact whole?_eq_some_iff hFits
  | bool b =>
      simp only [Option.some.injEq]
      exact ⟨by rintro rfl; exact .bool b, by rintro ⟨⟩; rfl⟩
  | string text => exact wholeText?_eq_some_iff hFits
  | null => exact ⟨nofun, nofun⟩
  | array items => exact ⟨nofun, nofun⟩
  | object members => exact ⟨nofun, nofun⟩

/- Inputs are the integers that numbers denote. -/
theorem parseValue_int_eq_ok_iff (x y : Json) :
    int.parseValue x = .ok y ↔
      ∃ k n, x = .number k ∧ Denotes x n ∧ IsInt32 n y := by
  cases x with
  | number k =>
      simp only [parseValue, Json.number.injEq, exists_eq_left',
        exists_and_left]
      exact int32_of_whole_iff fun n => whole?_eq_some_iff
  | _ => exact ⟨nofun, fun ⟨k, n, hEq, _⟩ => nomatch hEq⟩

/- Literals are read as the integers they are. -/
theorem parseLiteral_int_eq_ok_iff
    (literal : Literal)
    (y : Json) :
    int.parseLiteral literal = .ok y ↔
      ∃ n, literal = .int n ∧ IsInt32 n y := by
  cases literal with
  | int n =>
      simp only [parseLiteral, Literal.int.injEq, exists_eq_left',
        int32_eq_ok_iff]
  | _ => exact ⟨nofun, fun ⟨n, hEq, _⟩ => nomatch hEq⟩

------------------------------------------------------------
-- Outputs As Inputs
------------------------------------------------------------

/- Each scalar takes values of its own form as they are. -/
theorem read_of_written
    {scalar : BuiltinScalar}
    {x y : Json}
    (h : scalar.serialize x = .ok y) :
    scalar.parseValue y = .ok y ∧ scalar.serialize y = .ok y := by
  cases scalar with
  | boolean =>
      cases h
      exact ⟨rfl, rfl⟩
  | float =>
      simp only [serialize, serializeFloat] at h
      split at h
      · cases h
        exact ⟨rfl, rfl⟩
      · cases h
  | id =>
      have hText : ∃ text, y = .string text := by
        simp only [serialize, serializeId] at h
        split at h
        · cases h
          exact ⟨_, rfl⟩
        · split at h
          · cases h
            exact ⟨_, rfl⟩
          · cases h
        · cases h
      rcases hText with ⟨text, rfl⟩
      exact ⟨rfl, rfl⟩
  | int =>
      rcases (serializeInt_eq_ok_iff x y).1 h with ⟨n, -, hInt⟩
      have hDenotes : Denotes y n := hInt.2.2 ▸ .integer n
      exact ⟨(parseValue_int_eq_ok_iff y y).2
          ⟨.integer n, n, hInt.2.2, hDenotes, hInt⟩,
        (serializeInt_eq_ok_iff y y).2 ⟨n, hDenotes, hInt⟩⟩
  | string =>
      have hText : ∃ text, y = .string text := by
        simp only [serialize, serializeString] at h
        split at h
        all_goals cases h
        all_goals exact ⟨_, rfl⟩
      rcases hText with ⟨text, rfl⟩
      exact ⟨rfl, rfl⟩

/-
  What a scalar writes it reads, and writes again, unchanged.
  `Int` writes and reads the integers of 32 bits that values,
  numbers and literals denote, and no others.
-/
theorem written_is_read :
    (∀ (scalar : BuiltinScalar) (x y : Json),
      scalar.serialize x = .ok y →
        scalar.parseValue y = .ok y ∧
          scalar.serialize y = .ok y) ∧
    (∀ x y, int.serialize x = .ok y ↔
      ∃ n, Denotes x n ∧ IsInt32 n y) ∧
    (∀ x y, int.parseValue x = .ok y ↔
      ∃ k n, x = .number k ∧ Denotes x n ∧ IsInt32 n y) ∧
    ∀ literal y, int.parseLiteral literal = .ok y ↔
      ∃ n, literal = .int n ∧ IsInt32 n y :=
  ⟨fun _ _ _ => read_of_written, serializeInt_eq_ok_iff,
    parseValue_int_eq_ok_iff, parseLiteral_int_eq_ok_iff⟩

/- An integer with a sign and blanks around it. -/
theorem padded_seven_is_read :
    int.serialize (.string " +7 ") = .ok (.ofInt 7) ∧
      int.parseValue (.ofInt 7) = .ok (.ofInt 7) ∧
      int.serialize (.ofInt 7) = .ok (.ofInt 7) := by
  have hSpells : Notation.Spells ['+', '7'] 7 :=
    @Notation.Spells.plus ['7'] 7
      ⟨by decide, List.forall_mem_singleton.2 (by decide), rfl⟩
  have hBlank : ∀ c ∈ [' '], Text.isBlank c = true :=
    List.forall_mem_singleton.2 (by decide)
  have hDenotes : Denotes (.string " +7 ") 7 :=
    @Denotes.text " +7 " [' '] ['+', '7'] [' '] 7
      (by decide) hBlank hBlank hSpells
  have hWritten : int.serialize (.string " +7 ") =
      .ok (.ofInt 7) :=
    (written_is_read.2.1 _ _).2
      ⟨7, hDenotes, by decide, by decide, rfl⟩
  exact ⟨hWritten, written_is_read.1 _ _ _ hWritten⟩

------------------------------------------------------------
-- Integers As Identifiers
------------------------------------------------------------

/- As an input, an integer is its decimal text. -/
theorem parseValue_id_integer (n : Int) :
    id.parseValue (.ofInt n) = .ok (.string (toString n)) :=
  rfl

/- As an output, it is the text of the integer it passes for. -/
theorem serialize_id_integer (n : Int) :
    id.serialize (.ofInt n) =
      if n ≤ Json.maxSigned then .ok (.string (toString n))
      else if n ≤ Json.maxSigned + 1025 then
        .ok (.string (toString Json.maxSigned))
      else .error (.scalar .id (toString n)) := by
  simp only [serialize, serializeId, Json.ofInt, whole?_integer]
  by_cases hSigned : n ≤ Json.maxSigned
  · simp only [if_pos hSigned]
  · by_cases hNear : n ≤ Json.maxSigned + 1025
    · simp only [if_neg hSigned, if_pos hNear]
    · simp only [if_neg hSigned, if_neg hNear]
      rfl

/- Identifiers of different integers differ. -/
theorem text_ok_inj
    {m n : Int}
    (h : (.ok (.string (toString m)) : Except LeafError Json) =
      .ok (.string (toString n))) : m = n := by
  rw [Except.ok.injEq, Json.string.injEq] at h
  exact Notation.toString_inj h

/- One output stands for one integer, or for large ones. -/
theorem eq_of_serialize_id_eq
    {m n : Int}
    {y : Json}
    (hLeft : id.serialize (.ofInt m) = .ok y)
    (hRight : id.serialize (.ofInt n) = .ok y) :
    m = n ∨ (Json.maxSigned ≤ m ∧ Json.maxSigned ≤ n) := by
  have hPassing (k : Int) (hOk : id.serialize (.ofInt k) = .ok y) :
      y = .string (toString (min k Json.maxSigned)) := by
    rw [serialize_id_integer] at hOk
    split at hOk
    · next hSigned =>
        cases hOk
        rw [Int.min_eq_left hSigned]
    · next hLarge =>
        rw [Int.min_eq_right (Int.le_of_lt (Int.not_le.1 hLarge))]
        split at hOk
        · cases hOk
          rfl
        · cases hOk
  have hSame : min m Json.maxSigned = min n Json.maxSigned :=
    text_ok_inj (congrArg Except.ok
      ((hPassing m hLeft).symm.trans (hPassing n hRight)))
  omega

/-
  An integer is exact as an identifier that is read, and as
  one that is written if it is a signed integer of 64 bits.
  Above them it is first cut off and then refused, so that
  outputs agree with inputs, and tell integers apart, up to the
  greatest signed integer.
-/
theorem id_of_integer (n : Int) :
    id.parseValue (.ofInt n) = .ok (.string (toString n)) ∧
    (id.serialize (.ofInt n) =
      if n ≤ Json.maxSigned then .ok (.string (toString n))
      else if n ≤ Json.maxSigned + 1025 then
        .ok (.string (toString Json.maxSigned))
      else .error (.scalar .id (toString n))) ∧
    (id.serialize (.ofInt n) = id.parseValue (.ofInt n) ↔
      n ≤ Json.maxSigned) ∧
    ∀ m y, id.serialize (.ofInt m) = .ok y →
      id.serialize (.ofInt n) = .ok y →
        m = n ∨ (Json.maxSigned ≤ m ∧ Json.maxSigned ≤ n) := by
  refine ⟨parseValue_id_integer n, serialize_id_integer n, ?_,
    fun m y => eq_of_serialize_id_eq⟩
  rw [parseValue_id_integer, serialize_id_integer]
  split
  · next hSigned => exact iff_of_true rfl hSigned
  · next hLarge =>
      refine iff_of_false (fun hEq => ?_) hLarge
      split at hEq
      · exact hLarge (Int.le_of_eq (text_ok_inj hEq).symm)
      · cases hEq

/-
  The least integer that needs the 64th bit is written as the
  one before it, and read as itself.
-/
theorem id_written_as_the_one_before :
    id.serialize (.ofInt 9223372036854775808) =
        .ok (.string "9223372036854775807") ∧
      id.serialize (.ofInt 9223372036854775807) =
        .ok (.string "9223372036854775807") ∧
      id.parseValue (.ofInt 9223372036854775808) =
        .ok (.string "9223372036854775808") ∧
      ¬ ∀ n, Json.minInteger ≤ n → n ≤ Json.maxInteger →
        ∀ y, id.serialize (.ofInt n) = .ok y →
          y = .string (toString n) ∧
            id.parseValue (.ofInt n) = .ok y := by
  have hCut : id.serialize (.ofInt 9223372036854775808) =
      .ok (.string "9223372036854775807") := by
    rfl
  refine ⟨hCut, rfl, rfl, fun hExact => ?_⟩
  have hEq := (hExact _ (by decide) (by decide) _ hCut).1
  rw [Json.string.injEq] at hEq
  exact absurd hEq (by decide)

end BuiltinScalar

end GraphQL
