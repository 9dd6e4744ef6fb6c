import Lox.Proofs.Number.Denoted
import Lox.Proofs.Number.Unsigned
import Mathlib.Data.Nat.Cast.Field

/-!
Numbers in the text of a tree. The text of a number denotes a decimal that rounds to it, so that no two numbers have
the same text.
-/
namespace Lox

/-- The whole number of a magnitude is its value. -/
theorem Magnitude.value_of_whole? {magnitude : Magnitude} {whole : Nat} (found : magnitude.whole? = some whole) :
    magnitude.value = whole := by
  rw [value, zpow_eq_toNat_div two_ne_zero]
  unfold whole? at found
  split at found
  · rename_i nonnegative
    cases found
    rw [Int.toNat_of_nonpos (neg_nonpos.mpr nonnegative), pow_zero, div_one]
    push_cast [Nat.pow_eq]
    rfl
  · rename_i negative
    dsimp only at found
    split at found
    · rename_i divides
      cases found
      rw [Int.toNat_of_nonpos (not_le.mp negative).le, pow_zero, Nat.cast_div (Nat.dvd_of_mod_eq_zero divides)
        (by exact_mod_cast (Nat.pow_pos (by decide)).ne')]
      push_cast [Nat.pow_eq]
      ring
    · cases found

namespace Number

variable {number : Float}

theorem eq_of_toBits {number other : Float} (same : number.toBits.toNat = other.toBits.toNat) : number = other := by
  obtain ⟨bits, valid⟩ := number
  obtain ⟨bits', valid'⟩ := other
  have same' : bits = bits' := UInt64.toNat_inj.mp same
  subst same'
  rfl

theorem Unsigned.magnitude (unsigned : Unsigned number) :
    Magnitude.ofFloat number = Magnitude.ofBits number.toBits.toNat := by
  have less : number.toBits.toNat < 2 ^ 63 := unsigned.bits_lt
  have small : number.toBits.toNat / 2 ^ 52 < 2 ^ 11 := Nat.div_lt_of_lt_mul less
  exact congrArg (Magnitude.ofFields · _) (Nat.mod_eq_of_lt small)

theorem Unsigned.signed (unsigned : Unsigned number) (text : List Char) : signed number text = String.ofList text := by
  have plus : isNegative number = false := decide_eq_false (Nat.not_le.mpr unsigned.bits_lt)
  rw [Number.signed, if_neg (by rw [plus]; exact Bool.false_ne_true)]

theorem Unsigned.inTree_of_isInf (unsigned : Unsigned number) (infinite : number.isInf = true) :
    inTree number = "inf" := by
  rw [inTree, if_pos (by rw [infinite, Bool.or_true]), exact, if_neg (by rw [unsigned.isNaN]; exact Bool.false_ne_true),
    if_pos infinite, unsigned.signed]
  rfl

/-- The text of a number starts with a digit, and denotes a decimal that rounds to the number. -/
theorem Unsigned.denoted_inTree (unsigned : Unsigned number) (finite : number.isInf = false) :
    Numeral (inTree number).toList ∧
      (Magnitude.ofBits number.toBits.toNat).Covers (denoted (inTree number).toList) := by
  have isNumber : (number.isNaN || number.isInf) = false := by rw [unsigned.isNaN, finite]; rfl
  rw [← unsigned.magnitude, inTree, if_neg (by rw [isNumber]; exact Bool.false_ne_true)]
  split
  · rename_i none
    have zero := Magnitude.value_of_whole? none
    refine ⟨digits_zero.numeral (by simp), ?_⟩
    have denotes : denoted "0".toList = (Magnitude.ofFloat number).value := (denoted_digits digits_zero).trans zero.symm
    rw [denotes]
    exact Magnitude.covers_value _
  · rename_i whole _ found
    have digits := digits_toDigits whole
    rw [unsigned.signed, String.toList_ofList, denoted_digits digits, ofDigits_toDigits,
      ← Magnitude.value_of_whole? found]
    exact ⟨digits.numeral Nat.toDigits_ne_nil, Magnitude.covers_value _⟩
  · rename_i absent
    have positive : 0 < (Magnitude.ofFloat number).significand := by
      refine Nat.pos_of_ne_zero fun zero => ?_
      simp [Magnitude.whole?, zero] at absent
    rw [exact, if_neg (by rw [unsigned.isNaN]; exact Bool.false_ne_true),
      if_neg (by rw [finite]; exact Bool.false_ne_true)]
    dsimp only
    rw [if_neg positive.ne', unsigned.signed, String.toList_ofList, denoted_layout]
    refine ⟨numeral_layout _, Decimal.covers_shortest ?_⟩
    rw [unsigned.magnitude] at positive ⊢
    exact Magnitude.held_ofBits positive

/-- No two numbers have the same text. -/
theorem inTree_injective {other : Float} (unsigned : Unsigned number) (unsigned' : Unsigned other)
    (finite : number.isInf = false) (finite' : other.isInf = false) (same : inTree number = inTree other) :
    number = other := by
  have covers := (unsigned.denoted_inTree finite).2
  rw [same] at covers
  exact eq_of_toBits (Magnitude.eq_of_covers covers (unsigned'.denoted_inTree finite').2)

end Number

end Lox
