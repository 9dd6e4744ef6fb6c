import Lox.Proofs.Grammar.Completeness.Statements
import Lox.Proofs.Grammar.Shape
import Lox.Proofs.Grammar.Soundness.Statements

/-!
The clauses of `for` loops. The tree that a loop is read as has no form of its own, and does not tell what of it was
written as a clause; the tokens do.
-/
namespace Lox

/-- The clauses of a `for` loop. -/
structure ForLoop (ρ : Type) where
  initial : Option (Stmt ρ)
  condition : Option (Expr ρ)
  increment : Option (Expr ρ)
  body : Stmt ρ

/-- The statements that the first clause of a loop may be. -/
def Stmt.IsClause {ρ : Type} : Stmt ρ → Prop
  | .varDecl _ _ | .expression _ => True
  | _ => False

namespace ForLoop

variable {ρ : Type}

/-- The statement that a loop is read as. -/
def tree (loop : ForLoop ρ) : Stmt ρ := .forLoop loop.initial loop.condition loop.increment loop.body

/-- What the rules for statements see to. -/
structure Shaped (loop : ForLoop ρ) : Prop where
  initial : ∀ first, loop.initial = some first → first.IsClause ∧ first.Shaped
  condition : Expr.ShapedOption loop.condition
  increment : Expr.ShapedOption loop.increment
  body : loop.body.Shaped
  undeclared : loop.body.declared = []

end ForLoop

namespace Grammar

variable {rule : ElseRule} {tokens : List Token} {loop : ForLoop Unit}

/-- `"for" "(" ( <varDecl> | <exprStmt> | ";" ) <expression>? ";" <expression>? ")" <statement>`, with its clauses. -/
inductive ForStatement (rule : ElseRule) : List Token → ForLoop Unit → Prop
  | clauses {word opening semicolon closing : Token} {first second third tokens : List Token}
      {initial : Option (Stmt Unit)} {condition increment : Option (Expr Unit)} {dangling : Bool}
      {body : Stmt Unit} (keyword : word.kind = .forWord) (opens : opening.kind = .leftParen)
      (start : ForInitial first initial) (test : Optional Assignment second condition)
      (ends : semicolon.kind = .semicolon) (step : Optional Assignment third increment)
      (closes : closing.kind = .rightParen) (inside : Statement rule dangling tokens body) :
      ForStatement rule (word :: opening :: (first ++ (second ++ semicolon :: (third ++ closing :: tokens))))
        ⟨initial, condition, increment, body⟩

theorem ForInitial.isClause {initial : Option (Stmt Unit)} {first : Stmt Unit} (start : ForInitial tokens initial)
    (present : initial = some first) : first.IsClause := by
  cases start with
  | none => cases present
  | varDecl declared =>
    obtain ⟨_, _, _, _⟩ := declared
    cases present
    trivial
  | expression ended =>
    obtain ⟨_, _⟩ := ended
    cases present
    trivial

theorem ForInitial.shaped {initial : Option (Stmt Unit)} {first : Stmt Unit} (start : ForInitial tokens initial)
    (spelled : AllSpelled tokens) (present : initial = some first) : first.Shaped := by
  cases start with
  | none => cases present
  | varDecl declared =>
    cases present
    exact declared.shaped spelled
  | expression ended =>
    cases present
    exact ended.shaped spelled

theorem ForStatement.shaped (written : ForStatement rule tokens loop) (spelled : AllSpelled tokens) : loop.Shaped := by
  obtain ⟨_, _, start, test, _, step, _, inside⟩ := written
  simp only [allSpelled_cons, allSpelled_append] at spelled
  obtain ⟨_, _, first, second, _, third, _, rest⟩ := spelled
  exact ⟨fun _ present => ⟨start.isClause present, start.shaped first present⟩, test.shaped second, step.shaped third,
    (inside.shaped rest).1, (inside.shaped rest).2⟩

/-- A statement that starts with `for` is a loop. -/
theorem Statement.forStatement {dangling : Bool} {word : Token} {stmt : Stmt Unit}
    (derived : Statement rule dangling (word :: tokens) stmt) (keyword : word.kind = .forWord) :
    ∃ loop, ForStatement rule (word :: tokens) loop ∧ stmt = loop.tree := by
  generalize whole : word :: tokens = all at derived
  have other {kind : TokenKind} {first : Token} {rest : List Token} (same : word :: tokens = first :: rest)
      (apart : kind ≠ .forWord) (is : first.kind = kind) : False := by
    cases same
    exact apart (is.symm.trans keyword)
  cases derived with
  | expression ended =>
    obtain ⟨first, rest, rfl, starts⟩ := Parse.ExpressionStatement.starts ended
    cases whole
    rw [keyword] at starts
    cases starts
  | forLoop _ opens start test ends step closes inside =>
    cases whole
    exact ⟨_, .clauses keyword opens start test ends step closes inside, rfl⟩
  | ifThen is => exact (other whole (by decide) is).elim
  | ifElse is => exact (other whole (by decide) is).elim
  | print is => exact (other whole (by decide) is).elim
  | returnStmt is => exact (other whole (by decide) is).elim
  | whileLoop is => exact (other whole (by decide) is).elim
  | block block =>
    obtain ⟨_, _, rfl, is⟩ := Parse.Block.opened block
    exact (other whole (by decide) is).elim

end Grammar

/-- Where reading takes a `for` statement without a fault, it takes the tokens of a loop and builds its tree. -/
theorem Parse.statement_of_for {room : Nat} {word finish : Token} {tokens : List Token}
    {faults : Array (Located SyntaxFault)} {stmt : Stmt Unit} {after : Reader} (keyword : word.kind = .forWord)
    (read : statement room ⟨word :: tokens, finish, faults⟩ = .ok stmt after) (clean : after.faults = faults) :
    ∃ (taken : List Token) (loop : ForLoop Unit), word :: tokens = taken ++ after.upcoming ∧
      Grammar.ForStatement .nearest taken loop ∧ stmt = loop.tree := by
  have settles := (readsStatements .nearest room).statement ⟨word :: tokens, finish, faults⟩
  rw [read] at settles
  obtain ⟨isClean, taken, moved, some_, derived⟩ := settles
  have noFault : isClean = true := by
    cases isClean with
    | true => rfl
    | false => exact absurd moved.faults (by simp [clean])
  obtain ⟨dangling, derived, _⟩ := derived noFault
  cases taken with
  | nil => exact absurd rfl some_
  | cons first rest =>
    have upcoming := moved.upcoming
    cases upcoming
    obtain ⟨loop, written, same⟩ := derived.forStatement keyword
    exact ⟨_, loop, rfl, written, same⟩

end Lox
