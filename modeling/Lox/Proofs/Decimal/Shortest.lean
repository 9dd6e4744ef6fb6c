import Lox.Proofs.Decimal.Rounding
import Mathlib.Algebra.Order.Floor.Semifield
import Mathlib.Data.Rat.Floor

/-!
The search for the shortest decimal. Whatever it finds on a grid rounds to the magnitude, and it finds something: the
grid of seventeen digits is finer than the interval of what rounds to the magnitude.
-/
namespace Lox

namespace Magnitude

/-- What is known of the magnitude that the fields of a number hold, unless it is zero. -/
structure Held (magnitude : Magnitude) : Prop where
  positive : 0 < magnitude.significand
  short : magnitude.significand < 2 ^ 53
  narrow : magnitude.narrowBelow = true → magnitude.significand = 2 ^ 52
  least : -1074 ≤ magnitude.exponent

theorem held_ofFields {biased fraction : Nat} (fits : fraction < 4503599627370496)
    (positive : 0 < (ofFields biased fraction).significand) : (ofFields biased fraction).Held := by
  cases biased with
  | zero => exact ⟨positive, fits.trans (by norm_num), (fun narrow => nomatch narrow), le_refl (-1074)⟩
  | succ biased =>
    rw [ofFields_succ] at positive ⊢
    refine ⟨positive, ?_, fun narrow => ?_, ?_⟩
    · dsimp only
      omega
    · rw [Bool.and_eq_true, decide_eq_true_eq] at narrow
      rw [narrow.1]
      norm_num
    · dsimp only
      omega

theorem held_ofBits {bits : Nat} (positive : 0 < (ofBits bits).significand) : (ofBits bits).Held :=
  held_ofFields (Nat.mod_lt _ (by decide)) positive

end Magnitude

namespace Decimal

/-- The number that a decimal stands for. -/
def value (decimal : Decimal) : ℚ := decimal.digits * 10 ^ decimal.exponent

theorem value_trim (digits : Nat) (exponent : Int) : (trim digits exponent).value = digits * 10 ^ exponent := by
  fun_induction trim digits exponent with
  | case1 digits exponent ends ih =>
    have whole : (digits : ℚ) = (digits / 10 : Nat) * 10 := by
      exact_mod_cast (Nat.div_mul_cancel (Nat.dvd_of_mod_eq_zero ends.2)).symm
    rw [ih, zpow_add_one₀ (by norm_num), whole]
    ring
  | case2 => rfl

namespace Interval

variable {magnitude : Magnitude} {exponent : Int}

theorem denominator_pos (magnitude : Magnitude) : (0 : ℚ) < (ofMagnitude magnitude).denominator := by
  exact_mod_cast Nat.pow_pos (by decide)

theorem scale_div (magnitude : Magnitude) (number : Nat) :
    ((number * Nat.pow 2 (magnitude.exponent - 2).toNat : Nat) : ℚ) / (ofMagnitude magnitude).denominator =
      number * magnitude.quarter := by
  rw [Magnitude.quarter, zpow_eq_toNat_div (by norm_num), ofMagnitude]
  push_cast [Nat.pow_eq]
  ring

theorem value_ofMagnitude (magnitude : Magnitude) :
    ((ofMagnitude magnitude).value : ℚ) / (ofMagnitude magnitude).denominator = magnitude.value := by
  rw [magnitude.value_eq]
  refine (scale_div magnitude (4 * magnitude.significand)).trans ?_
  push_cast
  rfl

theorem high_ofMagnitude (magnitude : Magnitude) :
    ((ofMagnitude magnitude).high : ℚ) / (ofMagnitude magnitude).denominator = magnitude.upper := by
  refine (scale_div magnitude (4 * magnitude.significand + 2)).trans ?_
  rw [Magnitude.upper]
  push_cast
  rfl

theorem low_ofMagnitude (positive : 0 < magnitude.significand) :
    ((ofMagnitude magnitude).low : ℚ) / (ofMagnitude magnitude).denominator = magnitude.lower := by
  refine (scale_div magnitude (4 * magnitude.significand - if magnitude.narrowBelow then 1 else 2)).trans ?_
  rw [Magnitude.lower, Nat.cast_sub (by split <;> omega)]
  push_cast
  rfl

theorem holds_iff (positive : 0 < magnitude.significand) (numerator : Nat) {scale : Nat} (some_ : 0 < scale) :
    (ofMagnitude magnitude).holds numerator scale = true ↔ magnitude.Covers (numerator / scale) := by
  have some' : (0 : ℚ) < scale := by exact_mod_cast some_
  have den := denominator_pos magnitude
  rw [holds, Magnitude.Covers, ← low_ofMagnitude positive, ← high_ofMagnitude, div_le_div_iff₀ den some',
    div_le_div_iff₀ some' den, div_lt_div_iff₀ den some', div_lt_div_iff₀ some' den]
  simp only [← Nat.cast_mul, Nat.cast_le, Nat.cast_lt]
  have closed : (ofMagnitude magnitude).closed = decide (magnitude.significand % 2 = 0) := rfl
  rw [closed]
  by_cases even : magnitude.significand % 2 = 0 <;> simp [even]

section Grids

/-- The two points of a grid next to a magnitude. -/
def below (magnitude : Magnitude) (exponent : Int) : Nat :=
  (ofMagnitude magnitude).value * Nat.pow 10 (-exponent).toNat /
    (Nat.pow 10 exponent.toNat * (ofMagnitude magnitude).denominator)

theorem holds_point (positive : 0 < magnitude.significand) (exponent : Int) (point : Nat) :
    (ofMagnitude magnitude).holds (point * Nat.pow 10 exponent.toNat) (Nat.pow 10 (-exponent).toNat) = true ↔
      magnitude.Covers (point * 10 ^ exponent) := by
  refine (holds_iff positive _ (Nat.pow_pos (by decide))).trans (iff_of_eq ?_)
  rw [zpow_eq_toNat_div (by norm_num)]
  push_cast [Nat.pow_eq]
  rw [mul_div_assoc]

theorem below_eq_floor (magnitude : Magnitude) (exponent : Int) :
    below magnitude exponent = ⌊magnitude.value / 10 ^ exponent⌋₊ := by
  rw [zpow_eq_toNat_div (by norm_num), ← value_ofMagnitude, div_div_div_eq, below, ← Nat.floor_div_eq_div (K := ℚ),
    mul_comm (Nat.pow 10 exponent.toNat)]
  push_cast [Nat.pow_eq]
  rfl

/-- The points are on both sides of the magnitude. -/
theorem below_bounds (magnitude : Magnitude) (exponent : Int) :
    below magnitude exponent * (10 : ℚ) ^ exponent ≤ magnitude.value ∧
      magnitude.value < (below magnitude exponent + 1 : Nat) * (10 : ℚ) ^ exponent := by
  have step : (0 : ℚ) < 10 ^ exponent := zpow_pos (by norm_num) _
  have least : 0 ≤ magnitude.value := mul_nonneg (Nat.cast_nonneg _) (zpow_nonneg (by norm_num) _)
  rw [← le_div_iff₀ step, ← div_lt_iff₀ step, below_eq_floor]
  push_cast
  exact ⟨Nat.floor_le (div_nonneg least step.le), Nat.lt_floor_add_one _⟩

/-- What is found on a grid is one of the two points, and lies in the interval. -/
theorem onGrid?_eq_some {digits : Nat} (found : (ofMagnitude magnitude).onGrid? exponent = some digits) :
    (ofMagnitude magnitude).holds (digits * Nat.pow 10 exponent.toNat) (Nat.pow 10 (-exponent).toNat) = true := by
  unfold onGrid? at found
  dsimp only at found
  rw [← below] at found
  split at found
  · rename_i both
    rw [Bool.and_eq_true] at both
    split at found
    · cases found
      exact both.1
    split at found
    · cases found
      exact both.2
    · cases found
      split
      · exact both.1
      · exact both.2
  split at found
  · cases found
    assumption
  split at found
  · cases found
    assumption
  · cases found

/-- What is found on a grid rounds to the magnitude. -/
theorem covers_of_onGrid? (positive : 0 < magnitude.significand) {digits : Nat}
    (found : (ofMagnitude magnitude).onGrid? exponent = some digits) :
    magnitude.Covers (digits * 10 ^ exponent) := by
  rw [← holds_point positive]
  exact onGrid?_eq_some found

/-- A grid that is finer than the interval has a point in it: if neither of the two points lies in the interval, then
they are on either side of it. -/
theorem onGrid?_ne_none (positive : 0 < magnitude.significand)
    (fine : (10 : ℚ) ^ exponent < magnitude.upper - magnitude.lower) :
    (ofMagnitude magnitude).onGrid? exponent ≠ none := by
  obtain ⟨least, most⟩ := below_bounds magnitude exponent
  have one : magnitude.Covers (below magnitude exponent * 10 ^ exponent) ∨
      magnitude.Covers ((below magnitude exponent + 1 : Nat) * 10 ^ exponent) := by
    by_contra neither
    rw [not_or] at neither
    have low : below magnitude exponent * (10 : ℚ) ^ exponent ≤ magnitude.lower := by
      by_contra inside
      exact neither.1 (Magnitude.covers_of_lt (not_le.mp inside) (least.trans_lt magnitude.value_lt_upper))
    have high : magnitude.upper ≤ (below magnitude exponent + 1 : Nat) * (10 : ℚ) ^ exponent := by
      by_contra inside
      exact neither.2 (Magnitude.covers_of_lt (magnitude.lower_lt_value.trans most) (not_le.mp inside))
    push_cast at high
    linarith
  rw [← holds_point positive, ← holds_point positive, below] at one
  intro absent
  unfold onGrid? at absent
  dsimp only at absent
  split at absent
  · split at absent
    · cases absent
    split at absent <;> cases absent
  split at absent
  · cases absent
  split at absent
  · cases absent
  · exact one.elim ‹_› ‹_›

end Grids

section Leading

/-- The first digit of a number stands for no more than the number. -/
theorem pow_le_of_digits {number : Nat} (positive : 0 < number) :
    (10 : ℚ) ^ ((Nat.toDigits 10 number).length - 1 : Int) ≤ number := by
  have some_ := Nat.length_toDigits_pos (b := 10) (n := number)
  obtain ⟨more, length⟩ := Nat.exists_eq_add_one.mpr some_
  rw [length, Nat.cast_add_one, add_sub_cancel_right, zpow_natCast]
  rcases Nat.eq_zero_or_pos more with rfl | longer
  · exact_mod_cast positive
  · have short := Nat.length_toDigits_le_iff (n := number) (by decide : 1 < 10) longer
    rw [length] at short
    have least : 10 ^ more ≤ number := not_lt.mp fun less => absurd (short.mpr less) (by omega)
    exact_mod_cast least

/-- No magnitude is too small for the search of its first digit. -/
theorem least_le_value (held : magnitude.Held) : (10 : ℚ) ^ (-400 : Int) ≤ magnitude.value := by
  calc (10 : ℚ) ^ (-400 : Int) ≤ 8 ^ (-400 : Int) := by
        rw [zpow_neg, zpow_neg]
        exact inv_anti₀ (by positivity) (zpow_le_zpow_left₀ (by norm_num) (by norm_num) (by norm_num))
    _ = 2 ^ (-1200 : Int) := by
        rw [show (8 : ℚ) = 2 ^ (3 : Int) by norm_num, ← zpow_mul]
        norm_num
    _ ≤ 2 ^ magnitude.exponent := zpow_le_zpow_right₀ (by norm_num) (by linarith [held.least])
    _ ≤ magnitude.significand * 2 ^ magnitude.exponent := by
        have one : (1 : ℚ) ≤ magnitude.significand := by exact_mod_cast held.positive
        exact le_mul_of_one_le_left (zpow_nonneg (by norm_num) _) one

/-- The power of ten that is found is not above the magnitude. -/
theorem leadingPower_le (held : magnitude.Held) :
    (10 : ℚ) ^ (ofMagnitude magnitude).leadingPower ≤ magnitude.value := by
  have den := denominator_pos magnitude
  unfold leadingPower
  dsimp only
  split
  · rename_i whole
    refine (pow_le_of_digits whole).trans ?_
    rw [← value_ofMagnitude, le_div_iff₀ den]
    exact_mod_cast Nat.div_mul_le_self _ _
  · split
    · rename_i places found
      have reaches := List.find?_some found
      rw [decide_eq_true_eq] at reaches
      rw [← value_ofMagnitude, le_div_iff₀ den, zpow_neg, inv_mul_le_iff₀ (zpow_pos (by norm_num) _), mul_comm]
      exact_mod_cast reaches
    · exact least_le_value held

end Leading

end Interval

/-- The shortest decimal of a magnitude rounds to it. -/
theorem covers_shortest {magnitude : Magnitude} (held : magnitude.Held) :
    magnitude.Covers (shortest magnitude).value := by
  unfold shortest
  dsimp only
  split
  · rename_i digits exponent found
    obtain ⟨count, _, found⟩ := List.exists_of_findSome?_eq_some found
    obtain ⟨_, onGrid, same⟩ := Option.map_eq_some_iff.mp found
    cases same
    rw [value_trim]
    exact Interval.covers_of_onGrid? held.positive onGrid
  · rename_i absent
    have last := List.findSome?_eq_none_iff.mp absent 16 (by decide)
    rw [Option.map_eq_none_iff] at last
    refine absurd last (Interval.onGrid?_ne_none held.positive ?_)
    have leading := Interval.leadingPower_le held
    rw [zpow_sub₀ (by norm_num), div_lt_iff₀ (by norm_num)]
    refine leading.trans_lt ?_
    have gap : 4 * (magnitude.significand : ℚ) < (2 + if magnitude.narrowBelow then 1 else 2) * 10 ^ 16 := by
      split
      · rename_i narrow
        rw [held.narrow narrow]
        norm_num
      · have short : (magnitude.significand : ℚ) < 2 ^ 53 := by exact_mod_cast held.short
        linarith
    calc magnitude.value = 4 * magnitude.significand * magnitude.quarter := magnitude.value_eq
      _ < (2 + if magnitude.narrowBelow then 1 else 2) * 10 ^ 16 * magnitude.quarter :=
        mul_lt_mul_of_pos_right gap magnitude.quarter_pos
      _ = (magnitude.upper - magnitude.lower) * 10 ^ (16 : Int) := by
        rw [Magnitude.upper, Magnitude.lower]
        push_cast
        ring

end Decimal

end Lox
