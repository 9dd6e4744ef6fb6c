import Lox.Decimal.Shortest

/-!
Numbers as text. There is one exact form, in which no two numbers look alike, and two forms built from
it: what `print` shows, and how a literal stands in the text of a tree.
-/
namespace Lox.Number

/-- A decimal digit. Digits of other scripts are no digits here. -/
def isDigit (char : Char) : Bool := '0' ≤ char && char ≤ '9'

/-- The number that a run of decimal digits denotes. -/
def ofDigits (digits : List Char) : Nat :=
  digits.foldl (fun total char => 10 * total + (char.toNat - '0'.toNat)) 0

/-- Reads digits with an optional point and further digits, rounded to nearest; a number that is too
large becomes infinite. -/
def read (text : List Char) : Float :=
  let whole := text.takeWhile isDigit
  let places := (text.dropWhile isDigit).drop 1
  Float.ofScientific (ofDigits (whole ++ places)) true places.length

private def zeros (count : Nat) : List Char := List.replicate count '0'

/-- Positional notation of the digits `d.ddd * 10 ^ power`, with at least one digit on either side of
the point. -/
def positional (digits : List Char) (power : Int) : List Char :=
  if power < 0 then "0.".toList ++ zeros (-power - 1).toNat ++ digits
  else
    let whole := power.toNat + 1
    let padded := digits ++ zeros (whole - digits.length)
    let places := padded.drop whole
    padded.take whole ++ '.' :: (if places.isEmpty then ['0'] else places)

/-- Scientific notation: the exponent has a sign and at least two digits. -/
def scientific (digits : List Char) (power : Int) : List Char :=
  let places := digits.drop 1
  let exponent := Nat.toDigits 10 power.natAbs
  digits.take 1 ++ (if places.isEmpty then [] else '.' :: places) ++
    'e' :: (if power < 0 then '-' else '+') :: zeros (2 - exponent.length) ++ exponent

/-- A decimal is written positionally from `0.0001` up to below `10 ^ 16`. -/
def layout (decimal : Decimal) : List Char :=
  let digits := Nat.toDigits 10 decimal.digits
  let power := decimal.exponent + digits.length - 1
  if -4 ≤ power ∧ power < 16 then positional digits power else scientific digits power

/-- Whether the sign bit is set; true also of negative zero. -/
def isNegative (number : Float) : Bool := Nat.pow 2 63 ≤ number.toBits.toNat

/-- The sign of a number followed by the text of its magnitude. -/
def signed (number : Float) (text : List Char) : String :=
  String.ofList (if isNegative number then '-' :: text else text)

/-- The exact form: the fewest digits that read back, always with a point or an exponent. -/
def exact (number : Float) : String :=
  if number.isNaN then "nan"
  else if number.isInf then signed number "inf".toList
  else
    let magnitude := Magnitude.ofFloat number
    if magnitude.significand = 0 then signed number "0.0".toList
    else signed number (layout (Decimal.shortest magnitude))

/-- Leaves out a final `.0`. -/
def dropPointZero (text : String) : String :=
  match text.toList.reverse with
  | '0' :: '.' :: rest => String.ofList rest.reverse
  | _ => text

/-- What `print` shows: whole numbers have no point. -/
def shown (number : Float) : String :=
  if number.isNaN then "NaN"
  else if number.isInf then signed number "Infinity".toList
  else dropPointZero (exact number)

/-- A number inside the text of a tree: a whole number has all of its digits and no point, and zero has
no sign. -/
def inTree (number : Float) : String :=
  if number.isNaN || number.isInf then exact number
  else
    match (Magnitude.ofFloat number).whole? with
    | some 0 => "0"
    | some whole => signed number (Nat.toDigits 10 whole)
    | none => exact number

end Lox.Number
