import Lox.Tree

/-!
Trees as text: a form on one line, fully parenthesised with the operator first, and a form over several
indented lines in which only blocks, functions and classes are opened up.
-/
namespace Lox

variable {ρ : Type}

/-- A head and its parts between parentheses, separated by spaces. -/
def parenthesize (head : String) (parts : List String) : String :=
  "(" ++ " ".intercalate (head :: parts) ++ ")"

mutual

def Expr.show : Expr ρ → String
  | .literal value => value.inTree
  | .grouping inner => parenthesize "group" [inner.show]
  | .unary _ sign operand => parenthesize sign.lexeme [operand.show]
  | .binary _ left sign right => parenthesize sign.lexeme [left.show, right.show]
  | .logical _ left sign right => parenthesize sign.lexeme [left.show, right.show]
  | .read name _ => name.lexeme
  | .assign name _ value => parenthesize "=" [name.lexeme, value.show]
  | .call callee _ arguments => parenthesize "call" (callee.show :: Expr.showAll arguments)
  | .get object name => parenthesize "." [object.show, name.lexeme]
  | .set object name value => parenthesize "=" [object.show, name.lexeme, value.show]
  | .this _ _ => "this"
  | .super _ _ method => parenthesize "super" [method.lexeme]

def Expr.showAll : List (Expr ρ) → List String
  | [] => []
  | first :: rest => first.show :: Expr.showAll rest

end

/-- The parameters of a function between parentheses. -/
def showParams (params : List Token) : String :=
  "(" ++ " ".intercalate (params.map Token.lexeme) ++ ")"

/-- The name of a class, with that of its superclass if it has one. -/
def showClassName (name : Token) : Option (Token × ρ) → String
  | none => name.lexeme
  | some (superclass, _) => name.lexeme ++ " < " ++ superclass.lexeme

mutual

def Stmt.show : Stmt ρ → String
  | .expression value => parenthesize ";" [value.show]
  | .print value => parenthesize "print" [value.show]
  | .varDecl name initial => parenthesize "var" (name.lexeme :: (initial.map Expr.show).toList)
  | .block body => parenthesize "block" (Stmt.showAll body)
  | .ifThen condition accepted => parenthesize "if" [condition.show, accepted.show]
  | .ifElse condition accepted rejected =>
    parenthesize "if" [condition.show, accepted.show, rejected.show]
  | .whileLoop condition body => parenthesize "while" [condition.show, body.show]
  | .funDecl declaration => declaration.show
  | .returnStmt _ value => parenthesize "return" (value.map Expr.show).toList
  | .classDecl name superclass methods =>
    parenthesize "class" (showClassName name superclass :: FunctionDecl.showAll methods)

def Stmt.showAll : List (Stmt ρ) → List String
  | [] => []
  | first :: rest => first.show :: Stmt.showAll rest

def FunctionDecl.show : FunctionDecl ρ → String
  | .mk name params body => parenthesize "fun" (name.lexeme :: showParams params :: Stmt.showAll body)

def FunctionDecl.showAll : List (FunctionDecl ρ) → List String
  | [] => []
  | first :: rest => first.show :: FunctionDecl.showAll rest

end

/-- A program in one-line form, a line for each statement. -/
def Program.show (program : Program ρ) : String := "\n".intercalate (Stmt.showAll program)

/-- Four spaces for each level. -/
def indent (level : Nat) : String := String.ofList (List.replicate (4 * level) ' ')

/-- Puts a closing parenthesis after the last of the lines `header :: body`. -/
def closeLast (header : String) : List String → List String
  | [] => [header ++ ")"]
  | next :: rest => header :: closeLast next rest

mutual

/-- The lines of a statement that starts at an indentation level. -/
def Stmt.display (level : Nat) : Stmt ρ → List String
  | .block body => closeLast (indent level ++ "(block") (Stmt.displayAll (level + 1) body)
  | .funDecl declaration => declaration.display level
  | .classDecl name superclass methods =>
    closeLast (indent level ++ "(class " ++ showClassName name superclass)
      (FunctionDecl.displayAll (level + 1) methods)
  | .expression value => [indent level ++ (Stmt.expression value).show]
  | .print value => [indent level ++ (Stmt.print value).show]
  | .varDecl name initial => [indent level ++ (Stmt.varDecl name initial).show]
  | .ifThen condition accepted => [indent level ++ (Stmt.ifThen condition accepted).show]
  | .ifElse condition accepted rejected =>
    [indent level ++ (Stmt.ifElse condition accepted rejected).show]
  | .whileLoop condition body => [indent level ++ (Stmt.whileLoop condition body).show]
  | .returnStmt keyword value => [indent level ++ (Stmt.returnStmt keyword value).show]

def Stmt.displayAll (level : Nat) : List (Stmt ρ) → List String
  | [] => []
  | first :: rest => first.display level ++ Stmt.displayAll level rest

def FunctionDecl.display (level : Nat) : FunctionDecl ρ → List String
  | .mk name params body =>
    closeLast (indent level ++ "(fun " ++ name.lexeme ++ " " ++ showParams params)
      (Stmt.displayAll (level + 1) body)

def FunctionDecl.displayAll (level : Nat) : List (FunctionDecl ρ) → List String
  | [] => []
  | first :: rest => first.display level ++ FunctionDecl.displayAll level rest

end

/-- A program in indented form. -/
def Program.display (level : Nat) (program : Program ρ) : List String := Stmt.displayAll level program

end Lox
