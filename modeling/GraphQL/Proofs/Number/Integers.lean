import Mathlib.Data.Rat.Cast.Order
import Mathlib.Tactic.FieldSimp
import Mathlib.Tactic.Linarith
import Mathlib.Tactic.Ring
import GraphQL.Number.Binary64

/-
  Integers among the binary fractions.

  A fraction denotes an integer exactly if its value is one.
  An integer of more than 53 binary digits is rounded to a
  multiple of the power of two that leaves 53 of them.

  Key definitions include:
    * `Binary64.toRat`: the value of a fraction

  Main declarations:
    * `Binary64.integer?_eq_some_iff`
    * `Binary64.ofInt_of_large`
-/

------------------------------------------------------------
-- Values
------------------------------------------------------------

namespace GraphQL

/- A power of two in two factors. -/
theorem twoTo_sub_mul
    {k m : Nat}
    (h : k ≤ m) : twoTo (m - k) * twoTo k = twoTo m :=
  (Nat.pow_add 2 _ _).symm.trans
    (congrArg twoTo (Nat.sub_add_cancel h))

namespace Binary64

/- The value of a fraction. -/
def toRat (x : Binary64) : ℚ :=
  (if x.negative then -1 else 1) * x.significand *
    2 ^ x.exponent

/- The value is the quotient that the magnitude gives. -/
theorem toRat_eq (x : Binary64) :
    x.toRat = (if x.negative then -1 else 1) *
      ((x.magnitude.1 : ℚ) / x.magnitude.2) := by
  have hPower : (2 : ℚ) ^ x.exponent =
      (twoTo x.exponent.toNat : ℚ) /
        twoTo (-x.exponent).toNat := by
    rcases Int.eq_nat_or_neg x.exponent with ⟨k, hPos | hNeg⟩
    · simp [hPos]
    · simp [hNeg]
  rw [toRat, hPower, magnitude, Nat.cast_mul]
  ring

/- A fraction denotes an integer exactly if that is its value. -/
theorem integer?_eq_some_iff (x : Binary64) (n : Int) :
    x.integer? = some n ↔ x.toRat = n := by
  have hPos : 0 < x.magnitude.2 := Nat.pow_pos (by decide)
  rw [toRat_eq, integer?]
  generalize x.negative = negative
  generalize x.magnitude = ratio at hPos ⊢
  rcases ratio with ⟨num, den⟩
  simp only at hPos ⊢
  have hDen : (den : ℚ) ≠ 0 := by exact_mod_cast hPos.ne'
  split
  · next hRest =>
      rcases Nat.dvd_of_mod_eq_zero hRest with ⟨quotient, rfl⟩
      rw [Nat.mul_div_cancel_left quotient hPos, Nat.cast_mul,
        mul_div_cancel_left₀ _ hDen, Option.some.injEq]
      cases negative
      · simp only [Bool.false_eq_true, if_false, one_mul]
        exact_mod_cast Iff.rfl
      · simp only [if_true, neg_one_mul]
        exact_mod_cast Iff.rfl
  · next hRest =>
      refine ⟨nofun, fun h => absurd ?_ hRest⟩
      have hNum : (num : ℚ) =
          ((if negative then -n else n : Int) : ℚ) * den := by
        have hEq : (num : ℚ) / den =
            if negative then -(n : ℚ) else n := by
          cases negative <;> simp at h ⊢ <;> linarith
        rw [div_eq_iff hDen] at hEq
        rw [hEq]
        cases negative <;> simp
      have hInt : (num : Int) =
          (if negative then -n else n) * den := by
        exact_mod_cast hNum
      have hDvd : (den : Int) ∣ num := ⟨_, by rw [hInt, mul_comm]⟩
      exact Nat.mod_eq_zero_of_dvd (Int.natCast_dvd_natCast.1 hDvd)

------------------------------------------------------------
-- Rounding Of Integers
------------------------------------------------------------

/- Rounding does not fall below an integer that is reached. -/
theorem le_divNearest
    {num den k : Nat}
    (hDen : 0 < den)
    (h : k * den ≤ num) : k ≤ divNearest num den := by
  have hFloor : k ≤ num / den := (Nat.le_div_iff_mul_le hDen).2 h
  unfold divNearest
  simp only
  split <;> omega

/- An integral fraction with a nonnegative exponent. -/
theorem integer?_of_nonneg
    {significand : Nat}
    {exponent : Int}
    (h : 0 ≤ exponent) :
    (⟨false, significand, exponent⟩ : Binary64).integer? =
      some ((significand * twoTo exponent.toNat : Nat) : Int) := by
  have hZero : (-exponent).toNat = 0 := by omega
  simp [integer?, magnitude, hZero, Nat.mod_one]

variable {n : Nat}

/- The unit of an integer of more than 53 binary digits. -/
theorem unitExponent_of_large (h : 53 ≤ n.log2) :
    unitExponent n 1 = ((n.log2 - 52 : Nat) : Int) := by
  have hPower : twoTo n.log2 ≤ n :=
    Nat.log2_self_le (by rintro rfl; simp at h)
  have hRatio : scaled n 1 ((n.log2 : Int) - 53) =
      (n, twoTo (n.log2 - 53)) := by
    have hUp : ((n.log2 : Int) - 53).toNat = n.log2 - 53 := by
      omega
    have hDown : (-((n.log2 : Int) - 53)).toNat = 0 := by omega
    simp only [scaled, hUp, hDown, Nat.one_mul]
    rw [show twoTo 0 = 1 from rfl, Nat.mul_one]
  have hOne : ((Nat.log2 1 : Nat) : Int) = 0 := by decide
  simp only [unitExponent, hOne, sub_zero, hRatio]
  rw [twoTo_sub_mul h, if_neg (Nat.not_lt.2 hPower)]
  unfold minExponent
  omega

/-
  The multiple of a power of two that an integer is rounded to,
  unless it leaves the range.
-/
theorem ofInt_of_large (h : 53 ≤ n.log2) :
    ∃ x : Binary64,
      x.integer? = some
        ((divNearest n (twoTo (n.log2 - 52)) *
          twoTo (n.log2 - 52) : Nat) : Int) ∧
      x.exponent ≤ (n.log2 - 51 : Nat) ∧
      Extended.ofInt n =
        if x.exponent ≤ maxExponent then .finite x
        else .infinite false := by
  have hNonzero : n ≠ 0 := by rintro rfl; simp at h
  have hScaled : scaled n 1 ((n.log2 - 52 : Nat) : Int) =
      (n, twoTo (n.log2 - 52)) := by
    simp [scaled]
  refine ⟨if divNearest n (twoTo (n.log2 - 52)) = twoTo 53 then
      ⟨false, twoTo 52, ((n.log2 - 52 : Nat) : Int) + 1⟩
    else
      ⟨false, divNearest n (twoTo (n.log2 - 52)),
        ((n.log2 - 52 : Nat) : Int)⟩, ?_, ?_, ?_⟩
  · split
    · next hCarry =>
        rw [integer?_of_nonneg (by omega), hCarry]
        have hUp : (((n.log2 - 52 : Nat) : Int) + 1).toNat =
            n.log2 - 52 + 1 := by
          omega
        rw [hUp, twoTo_succ (n.log2 - 52), twoTo_succ 52,
          Nat.mul_right_comm, Nat.mul_assoc]
    · rw [integer?_of_nonneg (by omega), Int.toNat_natCast]
  · split
    · simp only
      omega
    · simp only
      omega
  · have hSign : decide ((n : Int) < 0) = false := by simp
    simp only [Extended.ofInt, hSign, Int.natAbs_natCast,
      Extended.ofRatio, if_neg hNonzero, unitExponent_of_large h,
      hScaled]

end Binary64

end GraphQL
