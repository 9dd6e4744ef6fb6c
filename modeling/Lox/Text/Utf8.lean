/-!
Reading bytes as UTF-8. A file that is no valid UTF-8 is refused with the place of the first bad sequence
and what is wrong with it; nothing is repaired.
-/
namespace Lox.Text

/-- What is wrong with a sequence of bytes. -/
inductive BadSequence where
  | startByte
  | continuationByte
  | endOfData
  deriving DecidableEq, Repr

def BadSequence.reason : BadSequence → String
  | .startByte => "invalid start byte"
  | .continuationByte => "invalid continuation byte"
  | .endOfData => "unexpected end of data"

/-- The first bad sequence of a file: `length` bytes from `start` on, the first being `byte`. -/
structure DecodingFault where
  start : Nat
  length : Nat
  byte : Nat
  cause : BadSequence
  deriving DecidableEq, Repr

private def hexByte (byte : Nat) : String :=
  let digits := Nat.toDigits 16 byte
  String.ofList (List.replicate (2 - digits.length) '0' ++ digits)

def DecodingFault.message (fault : DecodingFault) : String :=
  let place :=
    if fault.length = 1 then s!"byte 0x{hexByte fault.byte} in position {fault.start}"
    else s!"bytes in position {fault.start}-{fault.start + fault.length - 1}"
  s!"'utf-8' codec can't decode {place}: {fault.cause.reason}"

/-- Number of continuation bytes after a first byte and the range of the first of them, which excludes
overlong forms, surrogates and code points beyond the last plane. -/
def sequenceAfter (first : UInt8) : Option (Nat × UInt8 × UInt8) :=
  if first < 0xC2 then none
  else if first < 0xE0 then some (1, 0x80, 0xBF)
  else if first < 0xF0 then
    some (2, if first = 0xE0 then 0xA0 else 0x80, if first = 0xED then 0x9F else 0xBF)
  else if first < 0xF5 then
    some (3, if first = 0xF0 then 0x90 else 0x80, if first = 0xF4 then 0x8F else 0xBF)
  else none

/-- Takes `count` continuation bytes, the first of them between `low` and `high`. Fails with what is wrong
and the number of good bytes before it. -/
def takeContinuation (low high : UInt8) : (count taken code : Nat) → List UInt8 →
    Except (BadSequence × Nat) Nat
  | 0, _, code, _ => .ok code
  | _ + 1, taken, _, [] => .error (.endOfData, taken)
  | count + 1, taken, code, byte :: rest =>
    if low ≤ byte && byte ≤ high then
      takeContinuation 0x80 0xBF count (taken + 1) (code * 64 + byte.toNat % 64) rest
    else .error (.continuationByte, taken)

/-- One character at the head of the bytes, with the number of bytes it takes. -/
def takeChar (first : UInt8) (rest : List UInt8) : Except (BadSequence × Nat) (Char × Nat) :=
  if first < 0x80 then .ok (Char.ofNat first.toNat, 1)
  else
    match sequenceAfter first with
    | none => .error (.startByte, 0)
    | some (count, low, high) =>
      let lead := first.toNat % Nat.pow 2 (6 - count)
      (takeContinuation low high count 0 lead rest).map fun code => (Char.ofNat code, count + 1)

/-- Decodes the bytes from position `start` on. -/
def decodeFrom (start : Nat) (decoded : List Char) : List UInt8 → Except DecodingFault (List Char)
  | [] => .ok decoded.reverse
  | first :: rest =>
    match takeChar first rest with
    | .ok (char, length) => decodeFrom (start + length) (char :: decoded) (rest.drop (length - 1))
    | .error (cause, taken) => .error ⟨start, taken + 1, first.toNat, cause⟩
  termination_by bytes => bytes.length
  decreasing_by
    simp only [List.length_drop, List.length_cons]
    omega

/-- The text that the bytes encode. -/
def decodeUtf8 (bytes : List UInt8) : Except DecodingFault (List Char) := decodeFrom 0 [] bytes

end Lox.Text
