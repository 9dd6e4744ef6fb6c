import Lox.Token

/-!
Program trees. Every reference to a name carries a note of type `ρ`: nothing in a tree that has just been
read, and the distance to the scope of the name once the tree is bound.
-/
namespace Lox

inductive UnaryOp where
  | negate | not
  deriving DecidableEq, Repr

inductive BinaryOp where
  | add | subtract | multiply | divide | equal | notEqual | greater | greaterEqual | less | lessEqual
  deriving DecidableEq, Repr

/-- Operators that evaluate their right operand only if the left one does not decide. -/
inductive LogicalOp where
  | and | or
  deriving DecidableEq, Repr

/-- Expressions. An operator is kept with its token, which names the place in reports; a call is placed at
its closing parenthesis. -/
inductive Expr (ρ : Type) where
  | literal (value : Literal)
  | grouping (inner : Expr ρ)
  | unary (op : UnaryOp) (sign : Token) (operand : Expr ρ)
  | binary (op : BinaryOp) (left : Expr ρ) (sign : Token) (right : Expr ρ)
  | logical (op : LogicalOp) (left : Expr ρ) (sign : Token) (right : Expr ρ)
  | read (name : Token) (note : ρ)
  | assign (name : Token) (note : ρ) (value : Expr ρ)
  | call (callee : Expr ρ) (paren : Token) (arguments : List (Expr ρ))
  | get (object : Expr ρ) (name : Token)
  | set (object : Expr ρ) (name : Token) (value : Expr ρ)
  | this (keyword : Token) (note : ρ)
  | super (keyword : Token) (note : ρ) (method : Token)
  deriving Repr, Inhabited

mutual

/-- Statements and declarations. A `for` loop has no form of its own. -/
inductive Stmt (ρ : Type) where
  | expression (value : Expr ρ)
  | print (value : Expr ρ)
  | varDecl (name : Token) (initial : Option (Expr ρ))
  | block (body : List (Stmt ρ))
  | ifThen (condition : Expr ρ) (accepted : Stmt ρ)
  | ifElse (condition : Expr ρ) (accepted rejected : Stmt ρ)
  | whileLoop (condition : Expr ρ) (body : Stmt ρ)
  | funDecl (declaration : FunctionDecl ρ)
  | returnStmt (keyword : Token) (value : Option (Expr ρ))
  | classDecl (name : Token) (superclass : Option (Token × ρ)) (methods : List (FunctionDecl ρ))

/-- A function, or a method of a class. -/
inductive FunctionDecl (ρ : Type) where
  | mk (name : Token) (params : List Token) (body : List (Stmt ρ))

end

namespace FunctionDecl

variable {ρ : Type}

def name : FunctionDecl ρ → Token
  | mk name _ _ => name

def params : FunctionDecl ρ → List Token
  | mk _ params _ => params

def body : FunctionDecl ρ → List (Stmt ρ)
  | mk _ _ body => body

end FunctionDecl

instance {ρ : Type} : Inhabited (Stmt ρ) := ⟨.block []⟩

/-- A program: its top-level statements in order. -/
abbrev Program (ρ : Type) := List (Stmt ρ)

end Lox
