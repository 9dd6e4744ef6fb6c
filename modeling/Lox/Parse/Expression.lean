import Lox.Parse.Reader

/-!
Reading expressions. Binary operators stand on tiers, each of which binds tighter than the one before and
groups to the left; assignment is looser than all of them and groups to the right. `room` bounds the
nesting: every rule that is entered takes one level of it.
-/
namespace Lox

/-- The tiers of binary operators, loosest first. -/
inductive Tier where
  | or | and | equality | comparison | term | factor
  deriving DecidableEq, Repr

/-- What an operator between two operands builds. -/
inductive Joiner where
  | binary (op : BinaryOp)
  | logical (op : LogicalOp)
  deriving DecidableEq, Repr

def Joiner.join {ρ : Type} : Joiner → Expr ρ → Token → Expr ρ → Expr ρ
  | binary op, left, sign, right => .binary op left sign right
  | logical op, left, sign, right => .logical op left sign right

namespace Tier

/-- The tier of the operands; those of the last one are unary expressions. -/
def tighter? : Tier → Option Tier
  | or => some and
  | and => some equality
  | equality => some comparison
  | comparison => some term
  | term => some factor
  | factor => none

/-- The operators of a tier. -/
def joiner? : Tier → TokenKind → Option Joiner
  | or, .orWord => some (.logical .or)
  | and, .andWord => some (.logical .and)
  | equality, .bangEqual => some (.binary .notEqual)
  | equality, .equalEqual => some (.binary .equal)
  | comparison, .greater => some (.binary .greater)
  | comparison, .greaterEqual => some (.binary .greaterEqual)
  | comparison, .less => some (.binary .less)
  | comparison, .lessEqual => some (.binary .lessEqual)
  | term, .minus => some (.binary .subtract)
  | term, .plus => some (.binary .add)
  | factor, .slash => some (.binary .divide)
  | factor, .star => some (.binary .multiply)
  | _, _ => none

end Tier

/-- The operators before an operand. -/
def UnaryOp.ofKind? : TokenKind → Option UnaryOp
  | .bang => some .not
  | .minus => some .negate
  | _ => none

/-- Tokens that are an expression by themselves. -/
def Expr.ofToken? (token : Token) : Option (Expr Unit) :=
  match token.kind with
  | .falseWord => some (.literal (.bool false))
  | .trueWord => some (.literal (.bool true))
  | .nilWord => some (.literal .nil)
  | .number | .string => some (.literal (token.literal.getD .nil))
  | .thisWord => some (.this token ())
  | .identifier => some (.read token ())
  | _ => none

/-- The assignment of a value to a target. Names and properties can be assigned to. -/
def Expr.assignment? : (target value : Expr Unit) → Option (Expr Unit)
  | .read name note, value => some (.assign name note value)
  | .get object name, value => some (.set object name value)
  | _, _ => none

namespace Parse

/-- Takes a token that is an expression by itself. -/
def atom : Parse (Option (Expr Unit)) := fun reader =>
  match reader.upcoming with
  | [] => .ok none reader
  | token :: rest =>
    match Expr.ofToken? token with
    | none => .ok none reader
    | some expr => .ok (some expr) { reader with upcoming := rest }

mutual

/-- The target is read as any expression and looked at once an equals sign follows. What is no target is a
fault, and stands for the whole assignment. -/
def assignment : Nat → Parse (Expr Unit)
  | 0 => tooDeep
  | room + 1 => do
    let target ← tier room .or
    match ← accept .equal with
    | none => return target
    | some equals =>
      let value ← assignment room
      match target.assignment? value with
      | some expr => return expr
      | none =>
        complain equals .invalidTarget
        return target

/-- Operands of the next tier, joined from left to right. -/
def tier : Nat → Tier → Parse (Expr Unit)
  | 0, _ => tooDeep
  | room + 1, level => do
    let operand : Parse (Expr Unit) := match level.tighter? with
      | some next => tier room next
      | none => unary room
    let first ← operand
    repeating first fun left => do
      match ← acceptWhere level.joiner? with
      | none => return none
      | some (joiner, sign) => return some (joiner.join left sign (← operand))

def unary : Nat → Parse (Expr Unit)
  | 0 => tooDeep
  | room + 1 => do
    match ← acceptWhere UnaryOp.ofKind? with
    | some (op, sign) => return .unary op sign (← unary room)
    | none => call room

/-- A primary expression with any number of calls and property accesses after it. -/
def call : Nat → Parse (Expr Unit)
  | 0 => tooDeep
  | room + 1 => do
    let callee ← primary room
    repeating callee fun object => do
      if (← accept .leftParen).isSome then
        let (arguments, paren) ← parenthesized (assignment room) .tooManyArguments "')' after arguments"
        return some (.call object paren arguments)
      else if (← accept .dot).isSome then
        return some (.get object (← expect .identifier "property name after '.'"))
      else return none

def primary : Nat → Parse (Expr Unit)
  | 0 => tooDeep
  | room + 1 => do
    if let some expr ← atom then return expr
    if let some keyword ← accept .superWord then
      let _ ← expect .dot "'.' after 'super'"
      let method ← expect .identifier "superclass method name"
      return .super keyword () method
    if (← accept .leftParen).isSome then
      let inner ← assignment room
      let _ ← expect .rightParen "')' after expression"
      return .grouping inner
    refuse (.expected "expression")

end

/-- An expression, nested at most as deep as there is room. -/
def expression (room : Nat) : Parse (Expr Unit) := assignment room

end Parse

end Lox
