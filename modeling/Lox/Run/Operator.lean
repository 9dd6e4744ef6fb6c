import Lox.Machine

/-!
What the operators do with the values of their operands.
-/
namespace Lox

namespace UnaryOp

def apply : UnaryOp → Token → Value → Run Value
  | not, _, operand => return .bool !operand.isTruthy
  | negate, _, .number operand => return .number (-operand)
  | negate, sign, _ => Run.fail sign .operandNotNumber

end UnaryOp

namespace LogicalOp

/-- Whether the left operand alone is the result. -/
def decidedBy : LogicalOp → Value → Bool
  | or, left => left.isTruthy
  | and, left => !left.isTruthy

end LogicalOp

namespace BinaryOp

/-- Operators that take numbers only; the others have no result here. -/
def onNumbers? : BinaryOp → Float → Float → Option Value
  | subtract, left, right => some (.number (left - right))
  | multiply, left, right => some (.number (left * right))
  | divide, left, right => some (.number (left / right))
  | greater, left, right => some (.bool (left > right))
  | greaterEqual, left, right => some (.bool (left ≥ right))
  | less, left, right => some (.bool (left < right))
  | lessEqual, left, right => some (.bool (left ≤ right))
  | _, _, _ => none

def addValues (sign : Token) : Value → Value → Run Value
  | .number left, .number right => return .number (left + right)
  | .string left, .string right => return .string (left ++ right)
  | _, _ => Run.fail sign .operandsNotAddable

def compute (op : BinaryOp) (sign : Token) : Value → Value → Run Value
  | .number left, .number right =>
    match op.onNumbers? left right with
    | some result => return result
    | none => Run.fail sign .operandNotNumber
  | _, _ => Run.fail sign .operandNotNumber

def apply : BinaryOp → Token → Value → Value → Run Value
  | add, sign, left, right => addValues sign left right
  | equal, _, left, right => return .bool (left.equals right)
  | notEqual, _, left, right => return .bool !left.equals right
  | op, sign, left, right => op.compute sign left right

end BinaryOp

end Lox
