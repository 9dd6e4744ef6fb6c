/-!
The decimal with the fewest digits that reads back as a given binary number. The search runs over the
decimal grids of one, two, ... seventeen digits and takes the first one that meets the interval of reals
rounding to the number; everything is exact arithmetic on natural numbers.
-/
namespace Lox

/-- The magnitude of a finite number: `significand * 2 ^ exponent`. `narrowBelow` tells that the next
smaller number is only half a step away, as it is above a power of two. -/
structure Magnitude where
  significand : Nat
  exponent : Int
  narrowBelow : Bool
  deriving DecidableEq, Repr

namespace Magnitude

/-- The magnitude held in the exponent and fraction fields of a finite number. -/
def ofFields (biased fraction : Nat) : Magnitude :=
  if biased = 0 then ⟨fraction, -1074, false⟩
  else ⟨fraction + Nat.pow 2 52, (biased : Int) - 1075, fraction = 0 && 1 < biased⟩

/-- Magnitude of a finite number; the sign is left out. -/
def ofFloat (number : Float) : Magnitude :=
  let bits := number.toBits.toNat
  ofFields (bits / Nat.pow 2 52 % Nat.pow 2 11) (bits % Nat.pow 2 52)

/-- The whole number `significand * 2 ^ exponent`, if it is one. -/
def whole? (magnitude : Magnitude) : Option Nat :=
  if 0 ≤ magnitude.exponent then some (magnitude.significand * Nat.pow 2 magnitude.exponent.toNat)
  else
    let divisor := Nat.pow 2 (-magnitude.exponent).toNat
    if magnitude.significand % divisor = 0 then some (magnitude.significand / divisor) else none

end Magnitude

/-- The number `digits * 10 ^ exponent`. -/
structure Decimal where
  digits : Nat
  exponent : Int
  deriving DecidableEq, Repr

namespace Decimal

/-- A positive number between two bounds, all over one denominator. The bounds belong to the interval
exactly when `closed` holds. -/
structure Interval where
  low : Nat
  value : Nat
  high : Nat
  denominator : Nat
  closed : Bool
  deriving DecidableEq, Repr

namespace Interval

/-- The reals that round to a magnitude. The bounds are half a step away, a quarter below a power of
two; a bound rounds to the even significand. -/
def ofMagnitude (magnitude : Magnitude) : Interval :=
  let shift := magnitude.exponent - 2
  let scale := Nat.pow 2 shift.toNat
  let value := 4 * magnitude.significand
  { low := (value - if magnitude.narrowBelow then 1 else 2) * scale
    value := value * scale
    high := (value + 2) * scale
    denominator := Nat.pow 2 (-shift).toNat
    closed := magnitude.significand % 2 = 0 }

/-- Whether `numerator / denominator` lies in the interval, where the interval's own denominator is
multiplied by `scale`. -/
def holds (interval : Interval) (numerator scale : Nat) : Bool :=
  let point := numerator * interval.denominator
  if interval.closed then interval.low * scale ≤ point && point ≤ interval.high * scale
  else interval.low * scale < point && point < interval.high * scale

/-- The power of ten `p` with `10 ^ p ≤ value / denominator < 10 ^ (p + 1)`. -/
def leadingPower (interval : Interval) : Int :=
  let quotient := interval.value / interval.denominator
  if 0 < quotient then (Nat.toDigits 10 quotient).length - 1
  else
    let reaches (places : Nat) : Bool := interval.denominator ≤ interval.value * Nat.pow 10 (places + 1)
    match (List.range 400).find? reaches with
    | some places => -(places + 1 : Int)
    | none => -400

/-- The point of the grid `10 ^ exponent` that lies in the interval, if there is one: one of the two
neighbours of the value, the nearer one if both do, the even one if they are equally near. -/
def onGrid? (interval : Interval) (exponent : Int) : Option Nat :=
  let up := Nat.pow 10 exponent.toNat
  let down := Nat.pow 10 (-exponent).toNat
  let step := up * interval.denominator
  let scaled := interval.value * down
  let below := scaled / step
  let hasBelow := interval.holds (below * up) down
  let hasAbove := interval.holds ((below + 1) * up) down
  if hasBelow && hasAbove then
    let remainder := scaled % step
    if 2 * remainder < step then some below
    else if step < 2 * remainder then some (below + 1)
    else some (if below % 2 = 0 then below else below + 1)
  else if hasBelow then some below
  else if hasAbove then some (below + 1)
  else none

end Interval

/-- Drops trailing zeros into the exponent. -/
def trim (digits : Nat) (exponent : Int) : Decimal :=
  if positive : digits ≠ 0 ∧ digits % 10 = 0 then trim (digits / 10) (exponent + 1)
  else ⟨digits, exponent⟩
  termination_by digits
  decreasing_by omega

/-- The decimal of fewest digits that reads back as the magnitude, the nearest one of those. Seventeen
digits always suffice. -/
def shortest (magnitude : Magnitude) : Decimal :=
  let interval := Interval.ofMagnitude magnitude
  let leading := interval.leadingPower
  match (List.range 17).findSome? fun (count : Nat) =>
      (interval.onGrid? (leading - count)).map fun digits => (digits, leading - count) with
  | some (digits, exponent) => trim digits exponent
  | none => ⟨0, 0⟩

end Decimal

end Lox
