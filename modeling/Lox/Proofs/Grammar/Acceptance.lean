import Lox.Proofs.Grammar.Collecting
import Lox.Proofs.Grammar.Completeness.Statements
import Lox.Proofs.Grammar.Soundness.Statements

/-!
The tokens that are read without a fault are those of the grammar.

The grammar leaves open which `if` an `else` belongs to. Whatever has a derivation also has one in which
every `else` belongs to the nearest `if`: an `else` that stands further out is moved inwards, to the
innermost `if` that is left without one. That derivation is the one that reading finds.
-/
namespace Lox

namespace Grammar

/-- An `else` after a statement that is left dangling can be made part of it. -/
theorem Statement.attach {later dangling : Bool} {tokens rest : List Token} {stmt rejected : Stmt Unit}
    {other : Token} (statement : Statement .nearest dangling tokens stmt) (dangles : dangling = true)
    (otherwise : other.kind = .elseWord) (outside : Statement .nearest later rest rejected) :
    ∃ still whole, Statement .nearest still (tokens ++ other :: rest) whole := by
  -- The statement inside is shorter, and is left dangling as the whole is.
  induction size : tokens.length using Nat.strongRecOn generalizing tokens dangling stmt with
  | _ count ih =>
    subst size
    cases statement with
    | expression | print | returnStmt | block => cases dangles
    | forLoop keyword opens start test ends step closes inside =>
      obtain ⟨_, _, whole⟩ := ih _ (by simp; omega) inside dangles rfl
      exact ⟨_, _, by simpa using Statement.forLoop keyword opens start test ends step closes whole⟩
    | @ifThen _ _ _ _ _ _ inner _ keyword opens tested closes inside =>
      cases inner with
      | false =>
        exact ⟨_, _, by simpa using Statement.ifElse keyword opens tested closes inside rfl otherwise outside⟩
      | true =>
        obtain ⟨_, _, whole⟩ := ih _ (by simp; omega) inside rfl rfl
        exact ⟨_, _, by simpa using Statement.ifThen keyword opens tested closes whole⟩
    | ifElse keyword opens tested closes inside allowed otherwise' outside' =>
      obtain ⟨_, _, whole⟩ := ih _ (by simp; omega) outside' dangles rfl
      exact ⟨_, _, by simpa using Statement.ifElse keyword opens tested closes inside allowed otherwise' whole⟩
    | whileLoop keyword opens tested closes inside =>
      obtain ⟨_, _, whole⟩ := ih _ (by simp; omega) inside dangles rfl
      exact ⟨_, _, by simpa using Statement.whileLoop keyword opens tested closes whole⟩

mutual

theorem Declaration.settle {tokens : List Token} {stmt : Stmt Unit} :
    Declaration .any tokens stmt → ∃ settled, Declaration .nearest tokens settled
  | .classDecl keyword named inherits opens body closes =>
    have ⟨_, settled⟩ := Function.settleMany body
    ⟨_, .classDecl keyword named inherits opens settled closes⟩
  | .funDecl keyword function =>
    have ⟨_, settled⟩ := function.settle
    ⟨_, .funDecl keyword settled⟩
  | .varDecl declared => ⟨_, .varDecl declared⟩
  | .statement statement =>
    have ⟨_, _, settled⟩ := statement.settle
    ⟨_, .statement settled⟩

theorem Declaration.settleMany {tokens : List Token} {body : List (Stmt Unit)} :
    Many (Declaration .any) tokens body → ∃ settled, Many (Declaration .nearest) tokens settled
  | .nil => ⟨_, .nil⟩
  | .cons head tail =>
    have ⟨_, first⟩ := head.settle
    have ⟨_, rest⟩ := Declaration.settleMany tail
    ⟨_, .cons first rest⟩

theorem Function.settle {tokens : List Token} {declaration : FunctionDecl Unit} :
    Function .any tokens declaration → ∃ settled, Function .nearest tokens settled
  | .named named opens listing closes block =>
    have ⟨_, settled⟩ := block.settle
    ⟨_, .named named opens listing closes settled⟩

theorem Function.settleMany {tokens : List Token} {methods : List (FunctionDecl Unit)} :
    Many (Function .any) tokens methods → ∃ settled, Many (Function .nearest) tokens settled
  | .nil => ⟨_, .nil⟩
  | .cons head tail =>
    have ⟨_, first⟩ := head.settle
    have ⟨_, rest⟩ := Function.settleMany tail
    ⟨_, .cons first rest⟩

theorem Block.settle {tokens : List Token} {body : List (Stmt Unit)} :
    Block .any tokens body → ∃ settled, Block .nearest tokens settled
  | .braced opens inside closes =>
    have ⟨_, settled⟩ := Declaration.settleMany inside
    ⟨_, .braced opens settled closes⟩

theorem Statement.settle {dangling : Bool} {tokens : List Token} {stmt : Stmt Unit} :
    Statement .any dangling tokens stmt → ∃ dangling settled, Statement .nearest dangling tokens settled
  | .expression ended => ⟨_, _, .expression ended⟩
  | .forLoop keyword opens start test ends step closes inside =>
    have ⟨_, _, settled⟩ := inside.settle
    ⟨_, _, .forLoop keyword opens start test ends step closes settled⟩
  | .ifThen keyword opens tested closes inside =>
    have ⟨_, _, settled⟩ := inside.settle
    ⟨_, _, .ifThen keyword opens tested closes settled⟩
  | .ifElse keyword opens tested closes inside _ otherwise outside =>
    have ⟨inner, _, first⟩ := inside.settle
    have ⟨_, _, second⟩ := outside.settle
    match inner with
    | false => ⟨_, _, .ifElse keyword opens tested closes first rfl otherwise second⟩
    | true =>
      have ⟨_, _, whole⟩ := first.attach rfl otherwise second
      ⟨_, _, .ifThen keyword opens tested closes whole⟩
  | .print keyword expression ends => ⟨_, _, .print keyword expression ends⟩
  | .returnStmt keyword expression ends => ⟨_, _, .returnStmt keyword expression ends⟩
  | .whileLoop keyword opens tested closes inside =>
    have ⟨_, _, settled⟩ := inside.settle
    ⟨_, _, .whileLoop keyword opens tested closes settled⟩
  | .block block =>
    have ⟨_, settled⟩ := block.settle
    ⟨_, _, .block settled⟩

end

/-- Tokens of the grammar have a derivation in which every `else` belongs to the nearest `if`. -/
theorem Program.settle {tokens : List Token} {program : Lox.Program Unit} (derived : Program .any tokens program) :
    ∃ settled, Program .nearest tokens settled :=
  Declaration.settleMany derived

end Grammar

namespace Parse

variable {α β : Type}

/-- Actions that stop for lack of room only. -/
def Recovers (action : Parse α) : Prop := ∀ reader after, action reader ≠ .error .fault after

theorem Recovers.pure (value : α) : Recovers (Pure.pure value) :=
  fun reader after => by simp [Pure.pure, EStateM.pure]

theorem Recovers.bind {action : Parse α} {next : α → Parse β} (recovers : Recovers action)
    (continues : ∀ value, Recovers (next value)) : Recovers (action >>= next) := by
  intro reader after
  have first := recovers reader
  simp only [Bind.bind, EStateM.bind]
  cases outcome : action reader with
  | ok value middle => exact continues value middle after
  | error stop middle =>
    rw [outcome] at first
    simpa using first after

theorem recovers_declaration (room : Nat) : Recovers (declaration room) := by
  intro reader after
  cases room with
  | zero => simp [declaration, tooDeep]
  | succ room =>
    unfold declaration recovering
    split <;> simp

theorem recovers_rounds {step : α → Parse (Option α)} (steps : ∀ value, Recovers (step value))
    (bound : List Token) (start : α) : Recovers (rounds step bound start) := by
  induction bound generalizing start with
  | nil => exact Recovers.pure start
  | cons _ bound ih =>
    apply (steps start).bind
    intro more
    cases more with
    | none => exact Recovers.pure start
    | some next => exact ih next

/-- A fault costs a declaration, never the program. -/
theorem recovers_program (room : Nat) : Recovers (program room) := by
  refine Recovers.bind (fun reader => recovers_rounds (fun items => ?_) reader.upcoming [] reader)
    fun items => Recovers.pure _
  refine Recovers.bind (fun reader after => by simp [atEnd]) fun done => ?_
  split
  · exact Recovers.pure _
  apply (recovers_declaration room).bind
  intro read
  cases read <;> exact Recovers.pure _

/-- A declaration takes a token, whether it comes to a statement or recovers from a fault. -/
theorem consumes_declaration (room : Nat) : Consumes (declaration room) := by
  intro reader value after read present
  have settles := (readsStatements .nearest room).declaration reader
  rw [read] at settles
  obtain ⟨_, taken, moved, stuck, _⟩ := settles
  have taking : taken ≠ [] := by
    rintro rfl
    exact present (by simpa [stuck rfl] using moved.upcoming)
  have positive := List.length_pos_iff.mpr taking
  have shorter := moved.length
  omega

/-- Where a program has been read once it is read in front of other tokens too, and these are read as they
are by themselves. -/
theorem program_append {room : Nat} {tokens later : List Token} {stmts program : Program Unit} {finish : Token}
    {after : Reader} (derived : Grammar.Program .nearest tokens stmts)
    (read : Parse.program room ⟨tokens, finish, #[]⟩ = .ok program after) (noElse : NoElse later)
    (finish' : Token) (faults : Array (Located SyntaxFault)) :
    Parse.program room ⟨tokens ++ later, finish', faults⟩ =
      ((stmts ++ ·) <$> Parse.program room) ⟨later, finish', faults⟩ := by
  rw [← List.append_nil tokens] at read
  exact collect_append List.isEmpty (fun _ => rfl) rfl (consumes_declaration room)
    (fun _ _ derived => (takesStatements room).declaration derived) declaration_starts derived
    (by simp [NoElse]) read noElse finish' faults

end Parse

namespace Parsed

variable {room : Nat} {tokens : List Token} {finish : Token} {parsed : Parsed}

/-- Room for a pass through all the rules at each token always suffices. -/
theorem exists_within? (tokens : List Token) (finish : Token) (enough : 12 * tokens.length + 12 ≤ room) :
    ∃ parsed, within? room tokens finish = some parsed := by
  have settles := Parse.reads_program .nearest room ⟨tokens, finish, #[]⟩
  have recovers := Parse.recovers_program room ⟨tokens, finish, #[]⟩
  unfold within?
  generalize Parse.program room _ = outcome at settles recovers ⊢
  rcases outcome with ⟨program, after⟩ | ⟨_ | _, after⟩
  · exact ⟨_, rfl⟩
  · exact absurd rfl (recovers after)
  · have short : room < 12 + 12 * tokens.length := settles
    omega

/-- What is read without a fault has a derivation. -/
theorem derived_of_within? (rule : Grammar.ElseRule) (read : within? room tokens finish = some parsed)
    (clean : parsed.faults = []) : Grammar.Program rule tokens parsed.program := by
  have settles := Parse.reads_program rule room ⟨tokens, finish, #[]⟩
  unfold within? at read
  generalize Parse.program room _ = outcome at settles read
  cases outcome with
  | error => cases read
  | ok program after =>
    cases read
    obtain ⟨wasClean, taken, moved, ended, derived⟩ := settles
    have covered : tokens = taken := by simpa [ended] using moved.upcoming
    cases wasClean with
    | true => exact covered ▸ derived rfl
    | false =>
      have faulty := moved.faults
      have none : after.faults = #[] := by simpa using clean
      simp [none] at faulty

/-- What has a derivation is read without a fault, and as the tree of that derivation. -/
theorem eq_of_derived {program : Program Unit} (derived : Grammar.Program .nearest tokens program)
    (read : within? room tokens finish = some parsed) : parsed = ⟨program, []⟩ := by
  rcases Parse.takes_program room derived with takes | overruns
  · have same := takes [] finish #[] rfl
    rw [List.append_nil] at same
    simp only [within?, same, Option.some.injEq] at read
    exact read.symm
  · obtain ⟨after, same⟩ := overruns [] finish #[] rfl
    rw [List.append_nil] at same
    simp only [within?, same] at read
    cases read

/-- After tokens that are read without a fault, others are read as they are by themselves. An `else` is
another matter: it may continue an `if` that was complete without it. -/
theorem within?_append_eq {later : List Token} (read : within? room tokens finish = some parsed)
    (clean : parsed.faults = []) (noElse : Parse.NoElse later) (finish' : Token) :
    within? room (tokens ++ later) finish' = (within? room later finish').map fun parsed' =>
      ⟨parsed.program ++ parsed'.program, parsed'.faults⟩ := by
  have derived := derived_of_within? .nearest read clean
  unfold within? at read
  cases outcome : Parse.program room ⟨tokens, finish, #[]⟩ with
  | error => simp [outcome] at read
  | ok program after =>
    have whole := Parse.program_append derived outcome noElse finish' #[]
    simp only [within?, whole, Functor.map, EStateM.map]
    cases Parse.program room ⟨later, finish', #[]⟩ <;> rfl

/-- Tokens that are read without a fault, followed by others that are, are read as one program. -/
theorem within?_append {later : List Token} {finish' : Token} {parsed' : Parsed}
    (read : within? room tokens finish = some parsed) (clean : parsed.faults = [])
    (read' : within? room later finish' = some parsed') (clean' : parsed'.faults = []) :
    within? room (tokens ++ later) finish' = some ⟨parsed.program ++ parsed'.program, []⟩ := by
  have noElse : Parse.NoElse later := by
    have derived := derived_of_within? .nearest read' clean'
    generalize parsed'.program = program at derived
    cases derived with
    | nil => simp [Parse.NoElse]
    | cons head tail => exact (Parse.declaration_starts _ _ _ head).1
  rw [within?_append_eq read clean noElse, read', Option.map_some, clean']

/-- Reading accepts the grammar and nothing else. With room for the nesting, which a bound on the number of
tokens gives, there is no fault if and only if the tokens have a derivation; and the program read is then
the only one of a derivation in which every `else` belongs to the nearest `if`. -/
theorem within?_accepts_grammar (room : Nat) (tokens : List Token) (finish : Token) :
    (12 * tokens.length + 12 ≤ room → ∃ parsed, within? room tokens finish = some parsed) ∧
    ∀ parsed, within? room tokens finish = some parsed →
      (parsed.faults = [] ↔ ∃ program, Grammar.Program .any tokens program) ∧
      ∀ program, Grammar.Program .nearest tokens program ↔ parsed.faults = [] ∧ parsed.program = program := by
  refine ⟨exists_within? tokens finish, fun parsed read => ⟨⟨fun clean => ?_, ?_⟩, fun program => ⟨?_, ?_⟩⟩⟩
  · exact ⟨_, derived_of_within? .any read clean⟩
  · rintro ⟨_, derived⟩
    obtain ⟨_, settled⟩ := Grammar.Program.settle derived
    rw [eq_of_derived settled read]
  · intro derived
    rw [eq_of_derived derived read]
    exact ⟨rfl, rfl⟩
  · rintro ⟨clean, rfl⟩
    exact derived_of_within? .nearest read clean

/-- `if (true) if (false) nil; else nil;` -/
theorem within?_accepts_grammar_of_two_ifs :
    let tokens : List Token := [TokenKind.ifWord, .leftParen, .trueWord, .rightParen, .ifWord, .leftParen,
      .falseWord, .rightParen, .nilWord, .semicolon, .elseWord, .nilWord, .semicolon].map
        fun kind => ⟨kind, kind.name, none, ⟨1, 0⟩⟩
    12 * tokens.length + 12 ≤ 168 ∧
    (∃ parsed, within? 168 tokens ⟨.eof, "", none, ⟨1, 0⟩⟩ = some parsed) ∧
    Grammar.Program .nearest tokens [.ifThen (.literal (.bool true))
      (.ifElse (.literal (.bool false)) (.expression (.literal .nil)) (.expression (.literal .nil)))] := by
  intro tokens
  have accepts := within?_accepts_grammar 168 tokens ⟨.eof, "", none, ⟨1, 0⟩⟩
  exact ⟨by decide, accepts.1 (by decide), ((accepts.2 _ rfl).2 _).mpr ⟨rfl, rfl⟩⟩

/-- A prefix that is read without a fault is read the same whatever follows, but for an `else`, and what
follows is read as it is by itself: its statements come after those of the prefix, and its faults, of which
there may be any number, are all there are. -/
theorem within?_after_clean (room : Nat) (tokens later : List Token) (finish finish' : Token)
    (program : Program Unit) (read : within? room tokens finish = some ⟨program, []⟩)
    (noElse : later.head?.map Token.kind ≠ some .elseWord) :
    (12 * later.length + 12 ≤ room → ∃ parsed, within? room later finish' = some parsed) ∧
    within? room (tokens ++ later) finish' = (within? room later finish').map fun parsed =>
      ⟨program ++ parsed.program, parsed.faults⟩ :=
  ⟨exists_within? later finish', within?_append_eq read rfl noElse finish'⟩

/-- `if (true) nil;` before `1 = 2; print ;` -/
theorem within?_after_clean_of_if :
    let at_ (kind : TokenKind) : Token := ⟨kind, kind.name, none, ⟨1, 0⟩⟩
    let tokens := [at_ .ifWord, at_ .leftParen, at_ .trueWord, at_ .rightParen, at_ .nilWord, at_ .semicolon]
    let later := [at_ .trueWord, at_ .equal, at_ .nilWord, at_ .semicolon, at_ .printWord, at_ .semicolon]
    let program : Program Unit := [.ifThen (.literal (.bool true)) (.expression (.literal .nil))]
    within? 84 tokens (at_ .eof) = some ⟨program, []⟩ ∧
    later.head?.map Token.kind ≠ some .elseWord ∧
    within? 84 (tokens ++ later) (at_ .eof) = some ⟨program ++ [.expression (.literal (.bool true))],
      [⟨.invalidTarget, at_ .equal⟩, ⟨.expected "expression", at_ .semicolon⟩]⟩ := by
  intro at_ tokens later program
  have first : within? 84 tokens (at_ .eof) = some ⟨program, []⟩ := rfl
  exact ⟨first, by decide, (within?_after_clean 84 tokens later (at_ .eof) (at_ .eof) program first (by decide)).2⟩

end Parsed

end Lox
