import GraphQL.Number.Notation

/-
  The integers that texts spell.

  Reading an integer accepts an optional sign of either kind
  and a nonempty run of digits, and nothing else.

  Key definitions include:
    * `Notation.IsNumeral`: digits and their value
    * `Notation.Spells`: signed digits and their value

  Main declarations:
    * `Notation.integer?_eq_some_iff`
    * `Notation.spells_toString`
-/

------------------------------------------------------------
-- Spelling
------------------------------------------------------------

namespace GraphQL

namespace Notation

/- A nonempty run of decimal digits with its value. -/
def IsNumeral (digits : List Char) (n : Nat) : Prop :=
  digits ≠ [] ∧ (∀ c ∈ digits, c.isDigit = true) ∧
    n = Nat.ofDigitChars 10 digits 0

/- An integer in digits, with a sign of either kind or without. -/
inductive Spells : List Char → Int → Prop where
  | unsigned {digits : List Char} {n : Nat}
      (h : IsNumeral digits n) : Spells digits n
  | plus {digits : List Char} {n : Nat}
      (h : IsNumeral digits n) : Spells ('+' :: digits) n
  | minus {digits : List Char} {n : Nat}
      (h : IsNumeral digits n) : Spells ('-' :: digits) (-n)

------------------------------------------------------------
-- Reading
------------------------------------------------------------

theorem digitsValue_eq (digits : List Char) :
    digitsValue digits = Nat.ofDigitChars 10 digits 0 := by
  rw [digitsValue, Nat.ofDigitChars]
  congr 1
  funext acc c
  rw [Nat.mul_comm]

theorem natural?_eq_some_iff
    {digits : List Char}
    {n : Nat} :
    natural? digits = some n ↔ IsNumeral digits n := by
  rw [natural?, IsNumeral, digitsValue_eq]
  generalize Nat.ofDigitChars 10 digits 0 = value
  have hRun : (!digits.isEmpty && digits.all Char.isDigit) =
      true ↔ digits ≠ [] ∧ ∀ c ∈ digits, c.isDigit = true := by
    rw [Bool.and_eq_true, Bool.not_eq_true', List.all_eq_true,
      List.isEmpty_eq_false_iff]
  split
  · next h =>
      rcases hRun.1 h with ⟨hNonempty, hDigits⟩
      rw [Option.some.injEq]
      exact ⟨fun hEq => ⟨hNonempty, hDigits, hEq.symm⟩,
        fun hEq => hEq.2.2.symm⟩
  · next h =>
      exact ⟨nofun, fun hEq =>
        absurd (hRun.2 ⟨hEq.1, hEq.2.1⟩) h⟩

theorem sign_eq_self
    {cs : List Char}
    (hMinus : ∀ rest, cs ≠ '-' :: rest)
    (hPlus : ∀ rest, cs ≠ '+' :: rest) :
    sign cs = (false, cs) := by
  unfold sign
  split
  · next rest => exact absurd rfl (hMinus rest)
  · next rest => exact absurd rfl (hPlus rest)
  · rfl

/- Digits have no sign before them. -/
theorem IsNumeral.sign_eq
    {digits : List Char}
    {n : Nat}
    (h : IsNumeral digits n) : sign digits = (false, digits) := by
  have hHead (c : Char) (rest : List Char)
      (hEq : digits = c :: rest) : c.isDigit = true :=
    h.2.1 c (by simp [hEq])
  refine sign_eq_self (fun rest hEq => ?_) fun rest hEq => ?_
  · exact absurd (hHead '-' rest hEq) (by decide)
  · exact absurd (hHead '+' rest hEq) (by decide)

theorem integer?_eq (cs : List Char) :
    integer? cs = (natural? (sign cs).2).map fun (n : Nat) =>
      if (sign cs).1 then -(n : Int) else n := by
  rcases hSign : sign cs with ⟨negative, digits⟩
  simp only [integer?, hSign]
  cases natural? digits <;> rfl

/- What is read is what a text spells. -/
theorem integer?_eq_some_iff
    {cs : List Char}
    {n : Int} :
    integer? cs = some n ↔ Spells cs n := by
  constructor
  · intro h
    simp only [integer?_eq, Option.map_eq_some_iff,
      natural?_eq_some_iff] at h
    rcases h with ⟨k, hNumeral, rfl⟩
    unfold sign at hNumeral ⊢
    split at hNumeral
    · exact .minus hNumeral
    · exact .plus hNumeral
    · exact .unsigned hNumeral
  · rintro (h | h | h)
    · simp [integer?_eq, h.sign_eq, natural?_eq_some_iff.2 h]
    · simp [integer?_eq, sign, natural?_eq_some_iff.2 h]
    · simp [integer?_eq, sign, natural?_eq_some_iff.2 h]

/- A spelled integer has signs and digits only. -/
theorem Spells.of_mem
    {cs : List Char}
    {n : Int}
    (h : Spells cs n)
    {c : Char}
    (hc : c ∈ cs) : c = '+' ∨ c = '-' ∨ c.isDigit = true := by
  rcases h with h | h | h
  · exact .inr (.inr (h.2.1 c hc))
  · rcases List.mem_cons.1 hc with rfl | hc
    · exact .inl rfl
    · exact .inr (.inr (h.2.1 c hc))
  · rcases List.mem_cons.1 hc with rfl | hc
    · exact .inr (.inl rfl)
    · exact .inr (.inr (h.2.1 c hc))

theorem Spells.ne_nil
    {cs : List Char}
    {n : Int}
    (h : Spells cs n) : cs ≠ [] := by
  rcases h with h | h | h
  · exact h.1
  · exact List.cons_ne_nil _ _
  · exact List.cons_ne_nil _ _

------------------------------------------------------------
-- Decimal Text
------------------------------------------------------------

theorem isNumeral_toDigits (n : Nat) :
    IsNumeral (Nat.toDigits 10 n) n :=
  ⟨Nat.toDigits_ne_nil,
    fun _ hc =>
      Nat.isDigit_of_mem_toDigits (by decide) (by decide) hc,
    (Nat.ofDigitChars_toDigits (by decide) (by decide)).symm⟩

/- The decimal text of an integer spells it. -/
theorem spells_toString (n : Int) :
    Spells (toString n).toList n := by
  rw [Int.toString_eq_repr, Int.repr_eq_if]
  split
  · next hNonneg =>
      have h := Spells.unsigned (isNumeral_toDigits n.toNat)
      rwa [Int.toNat_of_nonneg hNonneg, ← Nat.toList_repr] at h
  · next hNegative =>
      have h := Spells.minus (isNumeral_toDigits (-n).toNat)
      rw [Int.toNat_of_nonneg (by omega), Int.neg_neg,
        ← Nat.toList_repr] at h
      rwa [String.toList_append]

/- A text spells one integer. -/
theorem Spells.unique
    {cs : List Char}
    {m n : Int}
    (hLeft : Spells cs m)
    (hRight : Spells cs n) : m = n :=
  Option.some.inj ((integer?_eq_some_iff.2 hLeft).symm.trans
    (integer?_eq_some_iff.2 hRight))

/- Decimal texts of different integers differ. -/
theorem toString_inj
    {m n : Int}
    (h : toString m = toString n) : m = n :=
  (spells_toString m).unique (h ▸ spells_toString n)

end Notation

end GraphQL
