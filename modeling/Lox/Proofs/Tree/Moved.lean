import Lox.Parse.Program
import Mathlib.Data.List.Forall2
import Mathlib.Data.Option.Basic

/-!
Trees whose tokens stand at other places. Which place a token has moved to is told by a relation of tokens; nothing
else about the trees differs.
-/
namespace Lox

/-- The same token at another place. -/
def Token.Elsewhere (token token' : Token) : Prop := ∃ position, token' = { token with position }

namespace Token.Elsewhere

variable {token token' : Token}

theorem kind (moved : token.Elsewhere token') : token'.kind = token.kind := by
  obtain ⟨_, rfl⟩ := moved
  rfl

theorem lexeme (moved : token.Elsewhere token') : token'.lexeme = token.lexeme := by
  obtain ⟨_, rfl⟩ := moved
  rfl

theorem literal (moved : token.Elsewhere token') : token'.literal = token.literal := by
  obtain ⟨_, rfl⟩ := moved
  rfl

end Token.Elsewhere

/-- Tokens move, and nothing else about them changes. -/
def Relocates (Moves : Token → Token → Prop) : Prop := ∀ ⦃token token'⦄, Moves token token' → token.Elsewhere token'

/-- A token that does not move is at a place too. -/
theorem relocates_same (Known : Token → Prop) : Relocates fun token token' => token' = token ∧ Known token := by
  rintro token token' ⟨rfl, _⟩
  exact ⟨token'.position, rfl⟩

/-- The same finding at a token that has moved. -/
def Located.Moved {Cause : Type} (Moves : Token → Token → Prop) (found found' : Located Cause) : Prop :=
  found'.cause = found.cause ∧ Moves found.token found'.token

variable {ρ : Type}

/-- An expression whose tokens have moved. -/
inductive Expr.Moved (Moves : Token → Token → Prop) : Expr ρ → Expr ρ → Prop
  | literal (value : Literal) : Moved Moves (.literal value) (.literal value)
  | grouping {inner inner'} (part : Moved Moves inner inner') : Moved Moves (.grouping inner) (.grouping inner')
  | unary {op sign sign' operand operand'} (token : Moves sign sign') (part : Moved Moves operand operand') :
      Moved Moves (.unary op sign operand) (.unary op sign' operand')
  | binary {op left left' sign sign' right right'} (token : Moves sign sign') (first : Moved Moves left left')
      (second : Moved Moves right right') : Moved Moves (.binary op left sign right) (.binary op left' sign' right')
  | logical {op left left' sign sign' right right'} (token : Moves sign sign') (first : Moved Moves left left')
      (second : Moved Moves right right') : Moved Moves (.logical op left sign right) (.logical op left' sign' right')
  | read {name name' note} (token : Moves name name') : Moved Moves (.read name note) (.read name' note)
  | assign {name name' note value value'} (token : Moves name name') (part : Moved Moves value value') :
      Moved Moves (.assign name note value) (.assign name' note value')
  | call {callee callee' paren paren' arguments arguments'} (token : Moves paren paren')
      (part : Moved Moves callee callee') (parts : List.Forall₂ (Moved Moves) arguments arguments') :
      Moved Moves (.call callee paren arguments) (.call callee' paren' arguments')
  | get {object object' name name'} (token : Moves name name') (part : Moved Moves object object') :
      Moved Moves (.get object name) (.get object' name')
  | set {object object' name name' value value'} (token : Moves name name') (first : Moved Moves object object')
      (second : Moved Moves value value') : Moved Moves (.set object name value) (.set object' name' value')
  | this {keyword keyword' note} (token : Moves keyword keyword') :
      Moved Moves (.this keyword note) (.this keyword' note)
  | super {keyword keyword' note method method'} (token : Moves keyword keyword') (name : Moves method method') :
      Moved Moves (.super keyword note method) (.super keyword' note method')

/-- The superclass of a class, if there is one. -/
inductive MovedSuperclass (Moves : Token → Token → Prop) : Option (Token × ρ) → Option (Token × ρ) → Prop
  | none : MovedSuperclass Moves none none
  | some {parent parent' note} (token : Moves parent parent') :
      MovedSuperclass Moves (some (parent, note)) (some (parent', note))

mutual

/-- A statement whose tokens have moved. -/
inductive Stmt.Moved (Moves : Token → Token → Prop) : Stmt ρ → Stmt ρ → Prop
  | expression {value value'} (part : Expr.Moved Moves value value') :
      Stmt.Moved Moves (.expression value) (.expression value')
  | print {value value'} (part : Expr.Moved Moves value value') : Stmt.Moved Moves (.print value) (.print value')
  | varDecl {name name' initial initial'} (token : Moves name name')
      (part : Option.Rel (Expr.Moved Moves) initial initial') :
      Stmt.Moved Moves (.varDecl name initial) (.varDecl name' initial')
  | block {body body'} (parts : List.Forall₂ (Stmt.Moved Moves) body body') :
      Stmt.Moved Moves (.block body) (.block body')
  | ifThen {condition condition' accepted accepted'} (test : Expr.Moved Moves condition condition')
      (part : Stmt.Moved Moves accepted accepted') :
      Stmt.Moved Moves (.ifThen condition accepted) (.ifThen condition' accepted')
  | ifElse {condition condition' accepted accepted' rejected rejected'} (test : Expr.Moved Moves condition condition')
      (first : Stmt.Moved Moves accepted accepted') (second : Stmt.Moved Moves rejected rejected') :
      Stmt.Moved Moves (.ifElse condition accepted rejected) (.ifElse condition' accepted' rejected')
  | whileLoop {condition condition' body body'} (test : Expr.Moved Moves condition condition')
      (part : Stmt.Moved Moves body body') : Stmt.Moved Moves (.whileLoop condition body) (.whileLoop condition' body')
  | funDecl {declaration declaration'} (part : FunctionDecl.Moved Moves declaration declaration') :
      Stmt.Moved Moves (.funDecl declaration) (.funDecl declaration')
  | returnStmt {keyword keyword' value value'} (token : Moves keyword keyword')
      (part : Option.Rel (Expr.Moved Moves) value value') :
      Stmt.Moved Moves (.returnStmt keyword value) (.returnStmt keyword' value')
  | classDecl {name name' superclass superclass' methods methods'} (token : Moves name name')
      (parent : MovedSuperclass Moves superclass superclass')
      (parts : List.Forall₂ (FunctionDecl.Moved Moves) methods methods') :
      Stmt.Moved Moves (.classDecl name superclass methods) (.classDecl name' superclass' methods')

inductive FunctionDecl.Moved (Moves : Token → Token → Prop) : FunctionDecl ρ → FunctionDecl ρ → Prop
  | mk {name name' params params' body body'} (token : Moves name name') (tokens : List.Forall₂ Moves params params')
      (parts : List.Forall₂ (Stmt.Moved Moves) body body') :
      FunctionDecl.Moved Moves (.mk name params body) (.mk name' params' body')

end

variable {Moves : Token → Token → Prop}

theorem FunctionDecl.Moved.name {declaration declaration' : FunctionDecl ρ}
    (moved : FunctionDecl.Moved Moves declaration declaration') : Moves declaration.name declaration'.name := by
  cases moved with
  | mk token _ _ => exact token

theorem Expr.moved_join {joiner : Joiner} {left left' right right' : Expr ρ} {sign sign' : Token}
    (first : Expr.Moved Moves left left') (token : Moves sign sign') (second : Expr.Moved Moves right right') :
    Expr.Moved Moves (joiner.join left sign right) (joiner.join left' sign' right') := by
  cases joiner with
  | binary op => exact .binary token first second
  | logical op => exact .logical token first second

/-- What can be assigned to, can be where the tokens have moved. -/
theorem Expr.moved_assignment? {target target' value value' : Expr Unit} (first : Expr.Moved Moves target target')
    (second : Expr.Moved Moves value value') :
    Option.Rel (Expr.Moved Moves) (target.assignment? value) (target'.assignment? value') := by
  cases first with
  | read token => exact .some (.assign token second)
  | get token part => exact .some (.set token part second)
  | _ => exact .none

theorem Stmt.moved_forLoop {initial initial' : Option (Stmt ρ)} {condition condition' increment increment' : Option (Expr ρ)}
    {body body' : Stmt ρ} (start : Option.Rel (Stmt.Moved Moves) initial initial')
    (test : Option.Rel (Expr.Moved Moves) condition condition')
    (step : Option.Rel (Expr.Moved Moves) increment increment') (inside : Stmt.Moved Moves body body') :
    Stmt.Moved Moves (.forLoop initial condition increment body) (.forLoop initial' condition' increment' body') := by
  have tested : Expr.Moved Moves (condition.getD (.literal (.bool true))) (condition'.getD (.literal (.bool true))) := by
    cases test with
    | some part => exact part
    | none => exact .literal _
  have rounds : ∀ {round round' : Stmt ρ}, Stmt.Moved Moves round round' →
      Stmt.Moved Moves (.whileLoop (condition.getD (.literal (.bool true))) round)
        (.whileLoop (condition'.getD (.literal (.bool true))) round') := fun part => .whileLoop tested part
  cases step with
  | none =>
    cases start with
    | none => exact rounds inside
    | some first => exact .block (.cons first (.cons (rounds inside) .nil))
  | some value =>
    have round := rounds (.block (.cons inside (.cons (.expression value) .nil)))
    cases start with
    | none => exact round
    | some first => exact .block (.cons first (.cons round .nil))

end Lox
