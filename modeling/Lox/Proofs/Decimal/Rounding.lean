import Lox.Decimal.Shortest
import Mathlib.Algebra.Order.Field.Power
import Mathlib.Algebra.Order.Field.Rat
import Mathlib.Order.Monotone.Basic
import Mathlib.Tactic.Linarith
import Mathlib.Tactic.NormNum
import Mathlib.Tactic.Ring

/-!
Which numbers round to a magnitude. Magnitudes are numbered in their order, and what rounds to one ends where what
rounds to the next one starts, so that no number rounds to two of them.
-/
namespace Lox

theorem zpow_eq_toNat_div {base : ℚ} (nonzero : base ≠ 0) (power : Int) :
    base ^ power = base ^ power.toNat / base ^ (-power).toNat := by
  rw [← zpow_natCast, ← zpow_natCast, ← zpow_sub₀ nonzero]
  congr 1
  omega

namespace Magnitude

/-- The number that is held. -/
def value (magnitude : Magnitude) : ℚ := magnitude.significand * 2 ^ magnitude.exponent

/-- A quarter of a step to the next magnitude. -/
def quarter (magnitude : Magnitude) : ℚ := 2 ^ (magnitude.exponent - 2)

/-- The middle between a magnitude and the one below. -/
def lower (magnitude : Magnitude) : ℚ :=
  (4 * magnitude.significand - if magnitude.narrowBelow then 1 else 2) * magnitude.quarter

/-- The middle between a magnitude and the one above. -/
def upper (magnitude : Magnitude) : ℚ := (4 * magnitude.significand + 2) * magnitude.quarter

/-- Whether a number rounds to a magnitude. A middle rounds to the even significand. -/
def Covers (magnitude : Magnitude) (number : ℚ) : Prop :=
  if magnitude.significand % 2 = 0 then magnitude.lower ≤ number ∧ number ≤ magnitude.upper
  else magnitude.lower < number ∧ number < magnitude.upper

/-- The fields that are held, as one number. -/
def ofBits (bits : Nat) : Magnitude := ofFields (bits / Nat.pow 2 52) (bits % Nat.pow 2 52)

variable {magnitude : Magnitude} {number : ℚ}

theorem quarter_pos (magnitude : Magnitude) : 0 < magnitude.quarter := zpow_pos (by norm_num) _

theorem value_eq (magnitude : Magnitude) : magnitude.value = 4 * magnitude.significand * magnitude.quarter := by
  rw [value, quarter, zpow_sub₀ (by norm_num)]
  ring

theorem lower_lt_value (magnitude : Magnitude) : magnitude.lower < magnitude.value := by
  rw [lower, value_eq]
  refine mul_lt_mul_of_pos_right ?_ magnitude.quarter_pos
  split <;> linarith

theorem value_lt_upper (magnitude : Magnitude) : magnitude.value < magnitude.upper := by
  rw [upper, value_eq]
  exact mul_lt_mul_of_pos_right (by linarith) magnitude.quarter_pos

theorem Covers.bounds (covers : magnitude.Covers number) : magnitude.lower ≤ number ∧ number ≤ magnitude.upper := by
  unfold Covers at covers
  split at covers
  · exact covers
  · exact ⟨covers.1.le, covers.2.le⟩

theorem covers_of_lt (above : magnitude.lower < number) (below : number < magnitude.upper) :
    magnitude.Covers number := by
  unfold Covers
  split
  · exact ⟨above.le, below.le⟩
  · exact ⟨above, below⟩

theorem covers_value (magnitude : Magnitude) : magnitude.Covers magnitude.value :=
  covers_of_lt magnitude.lower_lt_value magnitude.value_lt_upper

section Numbered

theorem size_fraction : Nat.pow 2 52 = 4503599627370496 := rfl

theorem ofFields_succ (biased fraction : Nat) : ofFields (biased + 1) fraction =
    ⟨fraction + 4503599627370496, biased - 1074, fraction = 0 && decide (0 < biased)⟩ := by
  have above : (decide (1 < biased + 1)) = decide (0 < biased) := by simp
  rw [ofFields, if_neg (Nat.succ_ne_zero _), above, size_fraction]
  congr 1
  push_cast
  ring

theorem upper_ofFields (biased fraction : Nat) :
    (ofFields biased fraction).upper = (ofFields biased (fraction + 1)).lower := by
  cases biased with
  | zero =>
    rw [upper, lower, quarter, quarter, ofFields, ofFields, if_pos rfl, if_pos rfl, if_neg Bool.false_ne_true]
    generalize (2 : ℚ) ^ (-1074 - 2 : Int) = step
    push_cast
    ring
  | succ biased =>
    simp only [upper, lower, quarter, ofFields_succ, Nat.add_eq_zero_iff, one_ne_zero, and_false, decide_false,
      Bool.false_and, Bool.false_eq_true, if_false]
    push_cast
    ring

theorem upper_ofFields_last (biased : Nat) :
    (ofFields biased (Nat.pow 2 52 - 1)).upper = (ofFields (biased + 1) 0).lower := by
  cases biased with
  | zero =>
    have lowest : ((0 : Nat) : Int) - 1074 = -1074 := rfl
    rw [upper, lower, quarter, quarter, ofFields_succ, ofFields, if_pos rfl, lowest, size_fraction]
    generalize (2 : ℚ) ^ (-1074 - 2 : Int) = step
    norm_num
  | succ biased =>
    have next : ((biased + 1 : Nat) : Int) - 1074 - 2 = biased - 1074 - 2 + 1 := by
      push_cast
      ring
    simp only [upper, lower, quarter, ofFields_succ, next, zpow_add_one₀ (two_ne_zero' ℚ), size_fraction]
    norm_num
    ring

/-- A magnitude starts where the one before it ends. -/
theorem upper_ofBits (bits : Nat) : (ofBits bits).upper = (ofBits (bits + 1)).lower := by
  by_cases last : bits % Nat.pow 2 52 = Nat.pow 2 52 - 1
  · have carried : (bits + 1) / Nat.pow 2 52 = bits / Nat.pow 2 52 + 1 ∧ (bits + 1) % Nat.pow 2 52 = 0 := by
      rw [size_fraction] at last ⊢
      omega
    rw [ofBits, ofBits, carried.1, carried.2, last, upper_ofFields_last]
  · have same : (bits + 1) / Nat.pow 2 52 = bits / Nat.pow 2 52 ∧
        (bits + 1) % Nat.pow 2 52 = bits % Nat.pow 2 52 + 1 := by
      rw [size_fraction] at last ⊢
      omega
    rw [ofBits, ofBits, same.1, same.2, upper_ofFields]

theorem lower_ofBits_strictMono : StrictMono fun bits => (ofBits bits).lower := by
  refine strictMono_nat_of_lt_succ fun bits => ?_
  rw [← upper_ofBits]
  exact (lower_lt_value _).trans (value_lt_upper _)

/-- Neighbours have significands of different parity. -/
theorem significand_ofBits (bits : Nat) : (ofBits bits).significand % 2 = bits % 2 := by
  unfold ofBits ofFields
  rw [size_fraction]
  split <;> dsimp only <;> omega

/-- A number rounds to one magnitude only. -/
theorem eq_of_covers {bits bits' : Nat} (covers : (ofBits bits).Covers number)
    (covers' : (ofBits bits').Covers number) : bits = bits' := by
  wlog smaller : bits < bits' generalizing bits bits'
  · rcases Nat.lt_or_ge bits' bits with larger | same
    · exact (this covers' covers larger).symm
    · omega
  -- What rounds to the smaller one reaches the larger one in their common bound at most, which only one of two
  -- neighbours has.
  have ends : (ofBits bits).upper ≤ (ofBits bits').lower := by
    rw [upper_ofBits]
    exact lower_ofBits_strictMono.monotone smaller
  have reaches : (ofBits bits').lower ≤ (ofBits bits).upper := covers'.bounds.1.trans covers.bounds.2
  have next : bits + 1 = bits' := by
    refine lower_ofBits_strictMono.injective ?_
    exact (upper_ofBits bits).symm.trans (le_antisymm ends reaches)
  have parity := significand_ofBits bits
  have parity' := significand_ofBits bits'
  unfold Covers at covers covers'
  split at covers <;> split at covers'
  · omega
  · linarith [covers.2, covers'.1]
  · linarith [covers.2, covers'.1]
  · linarith [covers.2, covers'.1]

end Numbered

end Magnitude

end Lox
