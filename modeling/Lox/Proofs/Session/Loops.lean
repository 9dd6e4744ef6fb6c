import Lox.Proofs.Run.Loops
import Lox.Proofs.Session.Confinement
import Lox.Proofs.Session.Joining

/-!
What `for` statements mean. Reading does without them: it builds a loop of another sort, in up to two blocks. That is as
good as running the clauses as they are written, wherever the statement stands and whatever the loop does.
-/
namespace Lox

open Grammar

/-- A variable of the initial clause is the nearest one of its name at the place of the other clauses. -/
theorem ForLoop.address_of_declared {loop : ForLoop Unit} {first : Stmt Unit} {name : String} (place : Place)
    (clause : loop.initial = some first) (declared : name ∈ first.declared) :
    (loop.place place).Address name (some 0) := by
  unfold ForLoop.place
  rw [clause]
  exact .bound [] place.scopes first.declared (ForLoop.scopes_enter place first.declared) declared (by simp)

/-- A `for` statement that is read without a fault cannot be told from its clauses, run as they are written: the initial
clause once, in a scope for the whole loop; then, as long as the condition holds, the body, and after it the increment
unless the body has returned. That is so wherever a statement may stand (`Stmt.takesStatements_at?`), on every machine,
and within any bounds. The tokens need only be spelled as those of a text are.

The condition, the body and the increment stand at one place, where a variable of the initial clause is at hand. What
the body declares is not declared there, so the increment does not see it. -/
theorem Parse.forStatement_runs_as_written {room : Nat} {word finish : Token} {tokens : List Token}
    {faults : Array (Located SyntaxFault)} {stmt : Stmt Unit} {after : Reader} (keyword : word.kind = .forWord)
    (spelled : AllSpelled (word :: tokens))
    (read : statement room ⟨word :: tokens, finish, faults⟩ = .ok stmt after) (clean : after.faults = faults) :
    ∃ (taken : List Token) (loop : ForLoop Unit), word :: tokens = taken ++ after.upcoming ∧
      ForStatement .nearest taken loop ∧ stmt = loop.tree ∧ loop.body.declared = [] ∧
      ∀ (known : List String) (around : Surrounding) (binder : Binder) (place : Place), Inside around place →
        Holds binder.scopes place.scopes → place.TakesStatements →
        let tree := (stmt.bind known around binder).1
        let written := (loop.bind known around binder).1
        (∀ machine : Machine, machine.Proper → machine.Has (.frame machine.current) → ∀ rounds level : Nat,
          Run.Indistinguishable (Run.exec .byDistance rounds level tree) (written.exec .byDistance rounds level)
            machine) ∧
        Node.Addressed place (.stmt tree) ∧ written.Addressed (loop.place place) ∧
          ∀ first name, loop.initial = some first → name ∈ first.declared →
            (loop.place place).Address name (some 0) := by
  obtain ⟨taken, loop, all, isFor, rfl⟩ := statement_of_for keyword read clean
  rw [all, allSpelled_append] at spelled
  have shaped := isFor.shaped spelled.1
  refine ⟨taken, loop, all, isFor, rfl, shaped.undeclared, fun known around binder place inside holds takes => ?_⟩
  refine ⟨?runs, ?tree, ?written, fun first name clause => ForLoop.address_of_declared place clause⟩
  case runs =>
    intro machine proper present rounds level
    obtain ⟨made, unfolds, same⟩ := ForLoop.unfolds known inside holds takes shaped
    have start := Hollow.Scene.stands_start proper.nested present
    rw [same]
    exact (ForLoop.goes_exec unfolds (fun first clause => ForLoop.isClause_initial known shaped clause)
      (Hollow.Scene.agrees_start proper) start).indistinguishable proper
  case tree => exact (loop.tree.walks known around place inside binder holds).1.2
  case written => exact (ForLoop.walks_bind known inside shaped.undeclared binder holds).1

/-- `for (var i = true; i; i = nil) print i;` at the top level of a session that has run nothing yet. -/
theorem Parse.forStatement_runs_as_written_of_var :
    let at_ (kind : TokenKind) (text : String) : Token := ⟨kind, text, none, ⟨1, 0⟩⟩
    let word := at_ .forWord "for"
    let tokens := [at_ .leftParen "(", at_ .varWord "var", at_ .identifier "i", at_ .equal "=", at_ .trueWord "true",
      at_ .semicolon ";", at_ .identifier "i", at_ .semicolon ";", at_ .identifier "i", at_ .equal "=",
      at_ .nilWord "nil", at_ .rightParen ")", at_ .printWord "print", at_ .identifier "i", at_ .semicolon ";"]
    let reader : Reader := ⟨word :: tokens, at_ .eof "", #[]⟩
    word.kind = .forWord ∧ AllSpelled (word :: tokens) ∧ Inside {} {} ∧ Holds [] [] ∧ Place.TakesStatements {} ∧
    Machine.initial.Proper ∧ Machine.initial.Has (.frame Machine.initial.current) ∧
    ∃ stmt, statement 20 reader = .ok stmt ⟨[], at_ .eof "", #[]⟩ ∧
      ∃ loop : ForLoop Unit, stmt = loop.tree ∧ ∀ rounds level : Nat,
        Run.Indistinguishable (Run.exec .byDistance rounds level (stmt.bind [] {} {}).1)
          ((loop.bind [] {} {}).1.exec .byDistance rounds level) Machine.initial := by
  intro at_ word tokens reader
  have named : TokenKind.ofWord "i" = .identifier := by decide
  have spelled : AllSpelled (word :: tokens) := by
    simp [word, tokens, at_, Token.Spelled, TokenKind.IsName, named]
  have inside : Inside {} {} := by simp [Inside]
  have takes : Place.TakesStatements {} := nofun
  have proper : Machine.initial.Proper := Store.proper_initial
  have present : Machine.initial.Has (.frame Machine.initial.current) := proper.nested.sized
  obtain ⟨stmt, read⟩ : ∃ stmt, statement 20 reader = .ok stmt ⟨[], at_ .eof "", #[]⟩ := ⟨_, rfl⟩
  obtain ⟨_, loop, _, _, same, _, means⟩ := forStatement_runs_as_written rfl spelled read rfl
  exact ⟨rfl, spelled, inside, .nil, takes, proper, present, stmt, read, loop, same,
    (means [] {} {} {} inside .nil takes).1 _ proper present⟩

end Lox
