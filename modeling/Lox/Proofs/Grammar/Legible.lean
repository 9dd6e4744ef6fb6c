import Lox.Proofs.Grammar.Acceptance
import Lox.Proofs.Number.Unsigned
import Lox.Proofs.Token.Respelling

/-!
What the trees of the grammar keep of a text: names that are spelled as names, operators that are spelled as what they
do, and the values of literals. All that a tree keeps of a token apart from its place can be told from its spelling.
-/
namespace Lox

open Scan (isLetter isWord)

namespace Token

/-- A token without its place. -/
def unplaced (token : Token) : Token := { token with position := default }

/-- A name without a place. -/
def named (name : String) : Token := ⟨.identifier, name, none, default⟩

/-- A token that is a name. -/
structure Named (token : Token) : Prop where
  unplaced : token.unplaced = named token.lexeme
  letters : ∃ first rest,
    token.lexeme.toList = first :: rest ∧ isLetter first = true ∧ ∀ char ∈ rest, isWord char = true
  free : token.lexeme ∉ TokenKind.keywords.map Prod.fst

variable {token : Token}

theorem named_of_legal (legal : token.spelling.Legal) (kind : token.kind = .identifier) : token.Named := by
  obtain ⟨_, lexeme, literal, position⟩ := token
  subst kind
  unfold spelling at legal
  cases legal with
  | fixed only => cases only
  | name letter word free => exact ⟨rfl, ⟨_, _, String.toList_ofList, letter, word⟩, free⟩

/-- A sign or a reserved word is known by its kind. -/
theorem unplaced_of_legal (legal : token.spelling.Legal) {kind : TokenKind} (same : token.kind = kind)
    (fixed : kind.text?.isSome = true) : token.unplaced = .ofKind kind := by
  obtain ⟨_, lexeme, literal, position⟩ := token
  subst same
  unfold spelling at legal
  cases legal with
  | fixed only =>
    rw [unplaced, ofKind, only]
    rfl
  | name | whole | decimal | string => cases fixed

end Token

def UnaryOp.sign : UnaryOp → TokenKind
  | negate => .minus
  | not => .bang

def BinaryOp.sign : BinaryOp → TokenKind
  | add => .plus
  | subtract => .minus
  | multiply => .star
  | divide => .slash
  | equal => .equalEqual
  | notEqual => .bangEqual
  | greater => .greater
  | greaterEqual => .greaterEqual
  | less => .less
  | lessEqual => .lessEqual

def LogicalOp.sign : LogicalOp → TokenKind
  | and => .andWord
  | or => .orWord

/-- The values that literals of a text can have. -/
def Literal.Legible : Literal → Prop
  | .nil | .bool _ => True
  | .number value => Number.Unsigned value
  | .string text => '"' ∉ text.toList

section Legible

variable {ρ : Type}

mutual

/-- All tokens of an expression are the names and the operators that the tree has. -/
def Expr.Legible : Expr ρ → Prop
  | .literal value => value.Legible
  | .grouping inner => inner.Legible
  | .unary op sign operand => sign.unplaced = .ofKind op.sign ∧ operand.Legible
  | .binary op left sign right => sign.unplaced = .ofKind op.sign ∧ left.Legible ∧ right.Legible
  | .logical op left sign right => sign.unplaced = .ofKind op.sign ∧ left.Legible ∧ right.Legible
  | .read name _ => name.Named
  | .assign name _ value => name.Named ∧ value.Legible
  | .call callee _ arguments => callee.Legible ∧ Expr.LegibleAll arguments
  | .get object name => object.Legible ∧ name.Named
  | .set object name value => object.Legible ∧ name.Named ∧ value.Legible
  | .this keyword _ => keyword.unplaced = .ofKind .thisWord
  | .super keyword _ method => keyword.unplaced = .ofKind .superWord ∧ method.Named

def Expr.LegibleAll : List (Expr ρ) → Prop
  | [] => True
  | first :: rest => first.Legible ∧ Expr.LegibleAll rest

end

def Expr.LegibleOption : Option (Expr ρ) → Prop
  | none => True
  | some value => value.Legible

/-- The superclass of a class, if it has one, is a name. -/
def LegibleSuperclass : Option (Token × ρ) → Prop
  | none => True
  | some (name, _) => name.Named

mutual

def Stmt.Legible : Stmt ρ → Prop
  | .expression value | .print value => value.Legible
  | .varDecl name initial => name.Named ∧ Expr.LegibleOption initial
  | .block body => Stmt.LegibleAll body
  | .ifThen condition accepted => condition.Legible ∧ accepted.Legible
  | .ifElse condition accepted rejected => condition.Legible ∧ accepted.Legible ∧ rejected.Legible
  | .whileLoop condition body => condition.Legible ∧ body.Legible
  | .funDecl declaration => declaration.Legible
  | .returnStmt keyword value => keyword.unplaced = .ofKind .returnWord ∧ Expr.LegibleOption value
  | .classDecl name superclass methods =>
    name.Named ∧ LegibleSuperclass superclass ∧ FunctionDecl.LegibleAll methods

def Stmt.LegibleAll : List (Stmt ρ) → Prop
  | [] => True
  | first :: rest => first.Legible ∧ Stmt.LegibleAll rest

def FunctionDecl.Legible : FunctionDecl ρ → Prop
  | .mk name params body => name.Named ∧ (∀ param ∈ params, param.Named) ∧ Stmt.LegibleAll body

def FunctionDecl.LegibleAll : List (FunctionDecl ρ) → Prop
  | [] => True
  | first :: rest => first.Legible ∧ FunctionDecl.LegibleAll rest

end

end Legible

namespace Grammar

/-- All tokens are spelled as tokens can be. -/
def AllLegal (tokens : List Token) : Prop := ∀ token ∈ tokens, token.spelling.Legal

@[simp]
theorem allLegal_nil : AllLegal [] := by simp [AllLegal]

@[simp]
theorem allLegal_cons {first : Token} {rest : List Token} :
    AllLegal (first :: rest) ↔ first.spelling.Legal ∧ AllLegal rest := by
  simp [AllLegal]

@[simp]
theorem allLegal_append {first rest : List Token} : AllLegal (first ++ rest) ↔ AllLegal first ∧ AllLegal rest := by
  simp [AllLegal, or_imp, forall_and]

theorem legible_literal {token : Token} (legal : token.spelling.Legal)
    (kind : token.kind = .number ∨ token.kind = .string) : (token.literal.getD .nil).Legible := by
  obtain ⟨isKind, lexeme, literal, position⟩ := token
  unfold Token.spelling at legal
  cases legal with
  | fixed only => rcases kind with rfl | rfl <;> cases only
  | name => rcases kind with same | same <;> cases same
  | whole | decimal => exact Number.unsigned_read _
  | string closed => exact fun member => closed (by simpa using member)

theorem legible_unary {op : UnaryOp} {operand : Expr Unit} {sign : Token} (operator : Sign sign.kind op)
    (legal : sign.spelling.Legal) (inside : operand.Legible) : (Expr.unary op sign operand).Legible := by
  generalize same : sign.kind = kind at operator
  cases operator <;> exact ⟨Token.unplaced_of_legal legal same rfl, inside⟩

theorem legible_join {joiner : Joiner} {level : Tier} {left right : Expr Unit} {sign : Token}
    (operator : Operator level sign.kind joiner) (legal : sign.spelling.Legal) (first : left.Legible)
    (second : right.Legible) : (joiner.join left sign right).Legible := by
  generalize same : sign.kind = kind at operator
  cases operator <;> exact ⟨Token.unplaced_of_legal legal same rfl, first, second⟩

mutual

theorem Assignment.legible {tokens : List Token} {expr : Expr Unit} :
    Assignment tokens expr → AllLegal tokens → expr.Legible
  | .name named _ right, legal => by
    simp only [allLegal_cons] at legal
    exact ⟨Token.named_of_legal legal.1 named, right.legible legal.2.2⟩
  | .property left _ named _ right, legal => by
    simp only [allLegal_append, allLegal_cons] at legal
    exact ⟨left.legible legal.1, Token.named_of_legal legal.2.2.1 named, right.legible legal.2.2.2.2⟩
  | .operation operation, legal => operation.legible legal

theorem Operation.legible {level : Tier} {tokens : List Token} {expr : Expr Unit} :
    Operation level tokens expr → AllLegal tokens → expr.Legible
  | .chain operand tail, legal => by
    simp only [allLegal_append] at legal
    exact Chain.legible tail (operand.legible legal.1) legal.2

theorem Chain.legible {level : Tier} {left result : Expr Unit} {tokens : List Token} :
    Chain Operand left level tokens result → left.Legible → AllLegal tokens → result.Legible
  | .done, before, _ => before
  | .more operator operand tail, before, legal => by
    simp only [allLegal_cons, allLegal_append] at legal
    exact Chain.legible tail (legible_join operator legal.1 before (operand.legible legal.2.1)) legal.2.2

theorem Operand.legible {level : Tier} {tokens : List Token} {expr : Expr Unit} :
    Operand level tokens expr → AllLegal tokens → expr.Legible
  | .tighter _ operation, legal => operation.legible legal
  | .unary unary, legal => unary.legible legal

theorem Unary.legible {tokens : List Token} {expr : Expr Unit} :
    Unary tokens expr → AllLegal tokens → expr.Legible
  | .operator operator right, legal => by
    simp only [allLegal_cons] at legal
    exact legible_unary operator legal.1 (right.legible legal.2)
  | .call call, legal => call.legible legal

theorem Call.legible {tokens : List Token} {expr : Expr Unit} :
    Call tokens expr → AllLegal tokens → expr.Legible
  | .suffixed primary tail, legal => by
    simp only [allLegal_append] at legal
    exact Suffixes.legible tail (primary.legible legal.1) legal.2

theorem Suffixes.legible {object result : Expr Unit} {tokens : List Token} :
    Suffixes Assignment object tokens result → object.Legible → AllLegal tokens → result.Legible
  | .done, before, _ => before
  | .call _ listing _ tail, before, legal => by
    simp only [allLegal_cons, allLegal_append] at legal
    exact Suffixes.legible tail ⟨before, Listing.legible listing legal.2.1⟩ legal.2.2.2
  | .get _ named tail, before, legal => by
    simp only [allLegal_cons] at legal
    exact Suffixes.legible tail ⟨before, Token.named_of_legal legal.2.1 named⟩ legal.2.2

theorem Listing.legible {tokens : List Token} {items : List (Expr Unit)} :
    Listing Assignment tokens items → AllLegal tokens → Expr.LegibleAll items
  | .none, _ => trivial
  | .some separated _, legal => Separated.legible separated legal

theorem Separated.legible {tokens : List Token} {items : List (Expr Unit)} :
    Separated Assignment tokens items → AllLegal tokens → Expr.LegibleAll items
  | .one only, legal => ⟨only.legible legal, trivial⟩
  | .more head _ tail, legal => by
    simp only [allLegal_append, allLegal_cons] at legal
    exact ⟨head.legible legal.1, Separated.legible tail legal.2.2⟩

theorem Primary.legible {tokens : List Token} {expr : Expr Unit} :
    Primary tokens expr → AllLegal tokens → expr.Legible
  | .falseWord _, _ | .trueWord _, _ | .nilWord _, _ => trivial
  | .number kind, legal => legible_literal (legal _ (by simp)) (.inl kind)
  | .string kind, legal => legible_literal (legal _ (by simp)) (.inr kind)
  | .name kind, legal => Token.named_of_legal (legal _ (by simp)) kind
  | .this kind, legal => Token.unplaced_of_legal (legal _ (by simp)) kind rfl
  | .group _ inside _, legal => by
    simp only [allLegal_cons, allLegal_append] at legal
    exact inside.legible legal.2.1
  | .super kind _ named, legal =>
    ⟨Token.unplaced_of_legal (legal _ (by simp)) kind rfl, Token.named_of_legal (legal _ (by simp)) named⟩

end

theorem Name.legible {tokens : List Token} {params : List Token} (listing : Listing Name tokens params)
    (legal : AllLegal tokens) : ∀ param ∈ params, param.Named := by
  cases listing with
  | none => simp
  | some separated few =>
    clear few
    induction separated with
    | one only =>
      obtain ⟨named⟩ := only
      simpa using Token.named_of_legal (legal _ (by simp)) named
    | more head _ _ ih =>
      obtain ⟨named⟩ := head
      simp only [allLegal_append, allLegal_cons] at legal
      simpa using ⟨Token.named_of_legal legal.1.1 named, ih legal.2.2⟩

theorem Optional.legible {tokens : List Token} {value : Option (Expr Unit)}
    (optional : Optional Assignment tokens value) (legal : AllLegal tokens) : Expr.LegibleOption value := by
  cases optional with
  | none => trivial
  | some present => exact present.legible legal

theorem Superclass.legible {tokens : List Token} {superclass : Option (Token × Unit)}
    (inherits : Superclass tokens superclass) (legal : AllLegal tokens) : LegibleSuperclass superclass := by
  cases inherits with
  | none => trivial
  | some _ named => exact Token.named_of_legal (legal _ (by simp)) named

theorem VarDecl.legible {tokens : List Token} {stmt : Stmt Unit} (declared : VarDecl tokens stmt)
    (legal : AllLegal tokens) : stmt.Legible := by
  obtain ⟨_, named, initializer, _⟩ := declared
  simp only [allLegal_cons, allLegal_append] at legal
  refine ⟨Token.named_of_legal legal.2.1 named, ?_⟩
  cases initializer with
  | none => trivial
  | some _ right =>
    simp only [allLegal_cons] at legal
    exact right.legible legal.2.2.1.2

theorem ExpressionStatement.legible {tokens : List Token} {stmt : Stmt Unit}
    (ended : ExpressionStatement tokens stmt) (legal : AllLegal tokens) : stmt.Legible := by
  obtain ⟨expression, _⟩ := ended
  simp only [allLegal_append] at legal
  exact expression.legible legal.1

theorem ForInitial.legible {tokens : List Token} {initial : Option (Stmt Unit)} (start : ForInitial tokens initial)
    (legal : AllLegal tokens) : ∀ stmt, initial = some stmt → stmt.Legible := by
  rintro _ rfl
  cases start with
  | varDecl declared => exact declared.legible legal
  | expression ended => exact ended.legible legal

theorem legible_forLoop {initial : Option (Stmt Unit)} {condition increment : Option (Expr Unit)}
    {body : Stmt Unit} (first : ∀ stmt, initial = some stmt → stmt.Legible) (test : Expr.LegibleOption condition)
    (step : Expr.LegibleOption increment) (inside : body.Legible) :
    (Stmt.forLoop initial condition increment body).Legible := by
  cases initial <;> cases condition <;> cases increment <;>
    simp_all [Stmt.forLoop, Stmt.Legible, Stmt.LegibleAll, Expr.LegibleOption, Expr.Legible, Literal.Legible]

variable {rule : ElseRule}

mutual

theorem Declaration.legible {tokens : List Token} {stmt : Stmt Unit} :
    Declaration rule tokens stmt → AllLegal tokens → stmt.Legible
  | .classDecl _ named inherits _ body _, legal => by
    simp only [allLegal_cons, allLegal_append] at legal
    exact ⟨Token.named_of_legal legal.2.1 named, inherits.legible legal.2.2.1,
      Function.legibleMany body legal.2.2.2.2.1⟩
  | .funDecl _ function, legal => by
    simp only [allLegal_cons] at legal
    exact function.legible legal.2
  | .varDecl declared, legal => declared.legible legal
  | .statement statement, legal => statement.legible legal

theorem Declaration.legibleMany {tokens : List Token} {body : List (Stmt Unit)} :
    Many (Declaration rule) tokens body → AllLegal tokens → Stmt.LegibleAll body
  | .nil, _ => trivial
  | .cons head tail, legal => by
    simp only [allLegal_append] at legal
    exact ⟨head.legible legal.1, Declaration.legibleMany tail legal.2⟩

theorem Function.legible {tokens : List Token} {declaration : FunctionDecl Unit} :
    Function rule tokens declaration → AllLegal tokens → declaration.Legible
  | .named named _ listing _ block, legal => by
    simp only [allLegal_cons, allLegal_append] at legal
    exact ⟨Token.named_of_legal legal.1 named, Name.legible listing legal.2.2.1, block.legible legal.2.2.2.2⟩

theorem Function.legibleMany {tokens : List Token} {methods : List (FunctionDecl Unit)} :
    Many (Function rule) tokens methods → AllLegal tokens → FunctionDecl.LegibleAll methods
  | .nil, _ => trivial
  | .cons head tail, legal => by
    simp only [allLegal_append] at legal
    exact ⟨head.legible legal.1, Function.legibleMany tail legal.2⟩

theorem Block.legible {tokens : List Token} {body : List (Stmt Unit)} :
    Block rule tokens body → AllLegal tokens → Stmt.LegibleAll body
  | .braced _ inside _, legal => by
    simp only [allLegal_cons, allLegal_append] at legal
    exact Declaration.legibleMany inside legal.2.1

theorem Statement.legible {dangling : Bool} {tokens : List Token} {stmt : Stmt Unit} :
    Statement rule dangling tokens stmt → AllLegal tokens → stmt.Legible
  | .expression ended, legal => ended.legible legal
  | .forLoop _ _ start test _ step _ inside, legal => by
    simp only [allLegal_cons, allLegal_append] at legal
    exact legible_forLoop (start.legible legal.2.2.1) (test.legible legal.2.2.2.1) (step.legible legal.2.2.2.2.2.1)
      (inside.legible legal.2.2.2.2.2.2.2)
  | .ifThen _ _ tested _ inside, legal => by
    simp only [allLegal_cons, allLegal_append] at legal
    exact ⟨tested.legible legal.2.2.1, inside.legible legal.2.2.2.2⟩
  | .ifElse _ _ tested _ inside _ _ outside, legal => by
    simp only [allLegal_cons, allLegal_append] at legal
    exact ⟨tested.legible legal.2.2.1, inside.legible legal.2.2.2.2.1, outside.legible legal.2.2.2.2.2.2⟩
  | .print _ expression _, legal => by
    simp only [allLegal_cons, allLegal_append] at legal
    exact expression.legible legal.2.1
  | .returnStmt keyword expression _, legal => by
    simp only [allLegal_cons, allLegal_append] at legal
    exact ⟨Token.unplaced_of_legal legal.1 keyword rfl, expression.legible legal.2.1⟩
  | .whileLoop _ _ tested _ inside, legal => by
    simp only [allLegal_cons, allLegal_append] at legal
    exact ⟨tested.legible legal.2.2.1, inside.legible legal.2.2.2.2⟩
  | .block block, legal => block.legible legal

end

end Grammar

/-- A program that is read without a fault has names and operators where the tree says so. -/
theorem Parsed.legible_within? {room : Nat} {text : List Char} {line : Int} {finish : Token} {program : Program Unit}
    (read : within? room (Scan.ofText text line).tokens finish = some ⟨program, []⟩) : Stmt.LegibleAll program :=
  Grammar.Declaration.legibleMany (derived_of_within? .any read rfl) fun _ => Scan.legal_of_mem

end Lox
