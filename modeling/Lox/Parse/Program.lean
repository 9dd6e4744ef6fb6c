import Lox.Parse.Expression
import Lox.Token.Scan

/-!
Reading statements, declarations and whole programs. A fault inside a declaration costs that declaration
only: reading resumes at the next place where a statement may start, so that one pass finds all it can.
-/
namespace Lox

/-- What a function is called in faults. -/
inductive FunctionSort where
  | function
  | method
  deriving DecidableEq, Repr

def FunctionSort.name : FunctionSort → String
  | function => "function"
  | method => "method"

namespace Stmt

variable {ρ : Type}

/-- A `for` loop in terms of the other statements: the initial statement and a loop over the body and the
increment, each pair in a block of its own. Without a condition the loop has no end of its own. -/
def forLoop (initial : Option (Stmt ρ)) (condition increment : Option (Expr ρ)) (body : Stmt ρ) : Stmt ρ :=
  let round := match increment with
    | none => body
    | some value => .block [body, .expression value]
  let rounds := .whileLoop (condition.getD (.literal (.bool true))) round
  match initial with
  | none => rounds
  | some first => .block [first, rounds]

end Stmt

namespace Parse

def printStatement (room : Nat) : Parse (Stmt Unit) := do
  let value ← expression room
  let _ ← expect .semicolon "';' after value"
  return .print value

def expressionStatement (room : Nat) : Parse (Stmt Unit) := do
  let value ← expression room
  let _ ← expect .semicolon "';' after expression"
  return .expression value

def returnStatement (room : Nat) (keyword : Token) : Parse (Stmt Unit) := do
  let value ← if ← sees .semicolon then pure none else some <$> expression room
  let _ ← expect .semicolon "';' after return value"
  return .returnStmt keyword value

def varDeclaration (room : Nat) : Parse (Stmt Unit) := do
  let name ← expect .identifier "variable name"
  let initial ← match ← accept .equal with
    | none => pure none
    | some _ => some <$> expression room
  let _ ← expect .semicolon "';' after variable declaration"
  return .varDecl name initial

/-- The first clause of a `for` loop, with the semicolon that ends it. -/
def forInitial (room : Nat) : Parse (Option (Stmt Unit)) := do
  if (← accept .semicolon).isSome then return none
  else if (← accept .varWord).isSome then return some (← varDeclaration room)
  else return some (← expressionStatement room)

/-- A clause of a `for` loop that may be left out, up to the token that ends it. -/
def forClause (room : Nat) (close : TokenKind) (what : String) : Parse (Option (Expr Unit)) := do
  let clause ← if ← sees close then pure none else some <$> expression room
  let _ ← expect close what
  return clause

/-- A condition between parentheses. -/
def condition (room : Nat) (before after : String) : Parse (Expr Unit) := do
  let _ ← expect .leftParen before
  let value ← expression room
  let _ ← expect .rightParen after
  return value

mutual

def declaration : Nat → Parse (Option (Stmt Unit))
  | 0 => tooDeep
  | room + 1 => recovering do
    if (← accept .classWord).isSome then classDeclaration room
    else if (← accept .funWord).isSome then return .funDecl (← function room .function)
    else if (← accept .varWord).isSome then varDeclaration room
    else statement room

def classDeclaration : Nat → Parse (Stmt Unit)
  | 0 => tooDeep
  | room + 1 => do
    let name ← expect .identifier "class name"
    let superclass ← match ← accept .less with
      | none => pure none
      | some _ => some <$> expect .identifier "superclass name"
    let _ ← expect .leftBrace "'\x7b' before class body"
    let methods ← untilBrace (some <$> function room .method)
    let _ ← expect .rightBrace "'\x7d' after class body"
    return .classDecl name (superclass.map (·, ())) methods

def function : Nat → FunctionSort → Parse (FunctionDecl Unit)
  | 0, _ => tooDeep
  | room + 1, sort => do
    let name ← expect .identifier (sort.name ++ " name")
    let _ ← expect .leftParen ("'(' after " ++ sort.name ++ " name")
    let (params, _) ← parenthesized (expect .identifier "parameter name") .tooManyParameters
      "')' after parameters"
    let _ ← expect .leftBrace ("'\x7b' before " ++ sort.name ++ " body")
    return .mk name params (← block room)

/-- The statements of a block whose opening brace is already taken. -/
def block : Nat → Parse (List (Stmt Unit))
  | 0 => tooDeep
  | room + 1 => do
    let body ← untilBrace (declaration room)
    let _ ← expect .rightBrace "'\x7d' after block"
    return body

def statement : Nat → Parse (Stmt Unit)
  | 0 => tooDeep
  | room + 1 => do
    if (← accept .forWord).isSome then
      let _ ← expect .leftParen "'(' after 'for'"
      let initial ← forInitial room
      let test ← forClause room .semicolon "';' after loop condition"
      let increment ← forClause room .rightParen "')' after for clauses"
      return .forLoop initial test increment (← statement room)
    else if (← accept .ifWord).isSome then
      let test ← condition room "'(' after 'if'" "')' after if condition"
      let accepted ← statement room
      match ← accept .elseWord with
      | none => return .ifThen test accepted
      | some _ => return .ifElse test accepted (← statement room)
    else if (← accept .printWord).isSome then printStatement room
    else if let some keyword ← accept .returnWord then returnStatement room keyword
    else if (← accept .whileWord).isSome then
      let test ← condition room "'(' after 'while'" "')' after condition"
      return .whileLoop test (← statement room)
    else if (← accept .leftBrace).isSome then return .block (← block room)
    else expressionStatement room

end

/-- Declarations up to the end of the tokens. -/
def program (room : Nat) : Parse (Program Unit) := collect atEnd (declaration room)

end Parse

/-- What reading a list of tokens gives: the statements that could be read, and the faults in the order in
which they were seen. -/
structure Parsed where
  program : Program Unit
  faults : List (Located SyntaxFault)

/-- Reads tokens with a bound on the nesting; `none` if it does not suffice. -/
def Parsed.within? (room : Nat) (tokens : List Token) (finish : Token) : Option Parsed :=
  match Parse.program room ⟨tokens, finish, #[]⟩ with
  | .ok program reader => some ⟨program, reader.faults.toList⟩
  | .error _ _ => none

/-- The nesting that sessions allow for. -/
def nestingLimit : Nat := 10000

/-- Reads the tokens of a scan within the nesting limit. -/
def Scan.parse? (scan : Scan) : Option Parsed := Parsed.within? nestingLimit scan.tokens scan.finish

end Lox
