import Lox.Proofs.Grammar.Soundness.Expressions

/-!
Statements, declarations and programs that are read without a fault have a derivation in which every `else`
belongs to the nearest `if` that could take it.
-/
namespace Lox.Parse

open Grammar

variable {room : Nat}

theorem reads_expressionStatement (room : Nat) :
    Reads (expressionStatement room) (Short room 10) (Covers ExpressionStatement) := by
  apply Reads.bind (reads_expression room)
  rintro clean tokens value ⟨_, _, derived⟩
  apply Reads.bind (reads_expect .semicolon _)
  rintro _ _ semicolon ⟨_, rfl, rfl, ends⟩
  refine Reads.pure fun _ _ _ => ⟨by simp, fun isClean => ?_⟩
  exact .ended (derived (by simpa using isClean)) ends

/-- A `print` statement, the keyword being taken already. -/
theorem reads_printStatement (rule : ElseRule) (room : Nat) :
    Reads (printStatement room) (Short room 10)
      (Covers fun taken stmt => ∀ word : Token, word.kind = .printWord →
        Statement rule false (word :: taken) stmt) := by
  apply Reads.bind (reads_expression room)
  rintro clean tokens value ⟨_, _, derived⟩
  apply Reads.bind (reads_expect .semicolon _)
  rintro _ _ semicolon ⟨_, rfl, rfl, ends⟩
  refine Reads.pure fun _ _ _ => ⟨by simp, fun isClean word keyword => ?_⟩
  exact .print keyword (derived (by simpa using isClean)) ends

private theorem reads_someExpression (room : Nat) :
    Reads (some <$> expression room) (Short room 10)
      fun clean taken value _ => clean = true → Optional Assignment taken value :=
  (reads_expression room).map fun _ _ _ _ formed isClean => .some (formed.2 isClean)

/-- A `return` statement, the keyword being taken already. -/
theorem reads_returnStatement (rule : ElseRule) (room : Nat) (word : Token) (keyword : word.kind = .returnWord) :
    Reads (returnStatement room word) (Short room 10)
      (Covers fun taken stmt => Statement rule false (word :: taken) stmt) := by
  refine reads_unless (short_mono _ _) (reads_someExpression room) (fun _ _ => .none) ?_
  rintro clean tokens value ⟨_, derived⟩
  apply Reads.bind (reads_expect .semicolon _)
  rintro _ _ semicolon ⟨_, rfl, rfl, ends⟩
  refine Reads.pure fun _ _ _ => ⟨by simp, fun isClean => ?_⟩
  exact .returnStmt keyword (derived (by simpa using isClean)) ends

/-- A variable declaration, the keyword being taken already. -/
theorem reads_varDeclaration (room : Nat) :
    Reads (varDeclaration room) (Short room 10)
      (Covers fun taken stmt => ∀ word : Token, word.kind = .varWord → VarDecl (word :: taken) stmt) := by
  apply Reads.bind (reads_expect .identifier _)
  rintro _ _ name ⟨_, rfl, rfl, named⟩
  refine reads_announced (fun clean taken initial _ => clean = true → Initializer taken initial)
    (fun equals sign => ?_) (fun _ _ => .none) ?_
  · refine ((reads_expression room).weaken (fun count => short_mono _ _ _ _ (by omega))
      fun _ _ _ _ => id).map ?_
    exact fun _ _ _ _ formed isClean => .some sign (formed.2 isClean)
  rintro clean tokens initial ⟨_, derived⟩
  apply Reads.bind (reads_expect .semicolon _)
  rintro _ _ semicolon ⟨_, rfl, rfl, ends⟩
  refine Reads.pure fun _ _ _ _ => ⟨by simp, fun isClean word keyword => ?_⟩
  exact .declared keyword named (derived (by simpa using isClean)) ends

theorem reads_forInitial (room : Nat) :
    Reads (forInitial room) (Short room 10) (Covers ForInitial) := by
  refine reads_choice (fun semicolon ends => ?none) (reads_choice (fun word keyword => ?declared) ?expression)
  case none => exact Reads.pure fun _ => ⟨by simp, fun _ => .none ends⟩
  case declared =>
    refine Reads.bind ((reads_varDeclaration room).weaken (fun count => short_mono _ _ _ _ (by simp))
      fun _ _ _ _ => id) ?_
    rintro clean tokens stmt ⟨_, _, derived⟩
    refine Reads.pure fun _ _ _ => ⟨by simp, fun isClean => ?_⟩
    simpa using ForInitial.varDecl (derived (by simpa using isClean) word keyword)
  case expression =>
    apply Reads.bind (reads_expressionStatement room)
    rintro clean tokens stmt ⟨_, present, derived⟩
    refine Reads.pure fun _ _ _ _ => ⟨by simpa using present, fun isClean => ?_⟩
    simpa using ForInitial.expression (derived (by simpa using isClean))

theorem reads_forClause (room : Nat) (close : TokenKind) (what : String) :
    Reads (forClause room close what) (Short room 10)
      (Covers fun taken clause => ∃ tokens closing, taken = tokens ++ [closing] ∧ closing.kind = close ∧
        Optional Assignment tokens clause) := by
  refine reads_unless (short_mono _ _) (reads_someExpression room) (fun _ _ => .none) ?_
  rintro clean tokens value ⟨_, derived⟩
  apply Reads.bind (reads_expect close _)
  rintro _ _ closing ⟨_, rfl, rfl, closes⟩
  refine Reads.pure fun _ _ _ => ⟨by simp, fun isClean => ?_⟩
  exact ⟨tokens, closing, by simp, closes, derived (by simpa using isClean)⟩

theorem reads_condition (room : Nat) (before after : String) :
    Reads (condition room before after) (Short room 10)
      (Covers fun taken value => ∃ opening tokens closing, taken = opening :: (tokens ++ [closing]) ∧
        opening.kind = .leftParen ∧ Assignment tokens value ∧ closing.kind = .rightParen) := by
  apply Reads.bind (reads_expect .leftParen _)
  rintro _ _ opening ⟨_, rfl, rfl, opens⟩
  refine Reads.bind ((reads_expression room).weaken (fun count => short_mono _ _ _ _ (by simp))
    fun _ _ _ _ => id) ?_
  rintro clean tokens value ⟨_, _, derived⟩
  apply Reads.bind (reads_expect .rightParen _)
  rintro _ _ closing ⟨_, rfl, rfl, closes⟩
  refine Reads.pure fun _ _ _ _ => ⟨by simp, fun isClean => ?_⟩
  exact ⟨opening, tokens, closing, by simp, opens, derived (by simpa using isClean), closes⟩

/-- The form of a statement. One that is left dangling is not followed by an `else`, since that would
have been read as part of it. -/
def CoversStatement (rule : ElseRule) : Form (Stmt Unit) := fun clean taken stmt rest =>
  taken ≠ [] ∧ (clean = true → ∃ dangling, Statement rule dangling taken stmt ∧
    (dangling = true → headKind rest ≠ some .elseWord))

/-- The form of a declaration, which may come to nothing. -/
def CoversDeclaration (rule : ElseRule) : Form (Option (Stmt Unit)) := fun clean taken value rest =>
  (taken = [] → rest = []) ∧ (clean = true → ∃ stmt, value = some stmt ∧ Declaration rule taken stmt)

/-- What the rules for statements and declarations read with some room. -/
structure ReadsStatements (rule : ElseRule) (room : Nat) : Prop where
  declaration : Reads (declaration room) (Short room 12) (CoversDeclaration rule)
  classDeclaration : Reads (classDeclaration room) (Short room 15)
    (Covers fun taken stmt => ∀ word : Token, word.kind = .classWord → Declaration rule (word :: taken) stmt)
  function (sort : FunctionSort) : Reads (function room sort) (Short room 14) (Covers (Grammar.Function rule))
  block : Reads (block room) (Short room 13)
    (Covers fun taken body => ∀ opening : Token, opening.kind = .leftBrace → Block rule (opening :: taken) body)
  statement : Reads (statement room) (Short room 11) (CoversStatement rule)

variable {rule : ElseRule}

theorem reads_declaration (ih : ReadsStatements rule room) :
    Reads (declaration (room + 1)) (Short (room + 1) 12) (CoversDeclaration rule) := by
  have declared : Reads (do
      if (← accept .classWord).isSome then classDeclaration room
      else if (← accept .funWord).isSome then return .funDecl (← function room .function)
      else if (← accept .varWord).isSome then varDeclaration room
      else statement room) (Short (room + 1) 12) (Covers (Declaration rule)) := by
    refine reads_choice (fun word keyword => ?classDecl) (reads_choice (fun word keyword => ?funDecl)
      (reads_choice (fun word keyword => ?varDecl) ?statement))
    case classDecl =>
      refine ih.classDeclaration.weaken (fun count => ?_) fun _ _ _ _ formed => ?_
      · simp only [Short]
        omega
      · exact ⟨by simp, fun isClean => formed.2 isClean word keyword⟩
    case funDecl =>
      refine Reads.bind ((ih.function .function).weaken (fun count => ?_) fun _ _ _ _ => id) ?_
      · simp only [Short]
        omega
      rintro clean tokens declaration ⟨_, _, derived⟩
      refine Reads.pure fun _ _ _ => ⟨by simp, fun isClean => ?_⟩
      simpa using Declaration.funDecl keyword (derived (by simpa using isClean))
    case varDecl =>
      refine (reads_varDeclaration room).weaken (fun count => ?_) fun _ _ _ _ formed _ _ => ?_
      · simp only [Short]
        omega
      · exact ⟨by simp, fun isClean => .varDecl (formed.2 isClean word keyword)⟩
    case statement =>
      refine ih.statement.weaken (fun count => ?_) fun _ _ _ _ formed _ _ _ => ⟨formed.1, fun isClean => ?_⟩
      · simp only [Short]
        omega
      · obtain ⟨dangling, statement, _⟩ := formed.2 isClean
        exact .statement statement
  refine (reads_recovering declared fun _ _ _ _ formed => formed.1).weaken (fun _ => id) ?_
  rintro clean taken value rest ⟨progress, derived⟩
  refine ⟨progress, fun isClean => ?_⟩
  obtain ⟨stmt, same, formed⟩ := derived isClean
  exact ⟨stmt, same, formed.2 rfl⟩

theorem reads_classDeclaration (ih : ReadsStatements rule room) :
    Reads (classDeclaration (room + 1)) (Short (room + 1) 15)
      (Covers fun taken stmt => ∀ word : Token, word.kind = .classWord →
        Declaration rule (word :: taken) stmt) := by
  unfold classDeclaration
  apply Reads.bind (reads_expect .identifier _)
  rintro _ _ name ⟨_, rfl, rfl, named⟩
  refine reads_announced (fun clean taken superclass _ => clean = true →
    Superclass taken (superclass.map (·, ()))) (fun less sign => ?superclass) (fun _ _ => .none) ?_
  case superclass =>
    apply (reads_expect .identifier _).map
    rintro _ _ parent _ ⟨rfl, rfl, inherited⟩ _
    exact .some sign inherited
  rintro clean₁ heading superclass ⟨_, inherits⟩
  apply Reads.bind (reads_expect .leftBrace _)
  rintro _ _ opening ⟨_, rfl, rfl, opens⟩
  have method : Reads (some <$> function room .method) (Short (room + 1) 15)
      fun clean taken value rest => (taken = [] → rest = []) ∧
        (clean = true → ∃ method, value = some method ∧ Grammar.Function rule taken method) := by
    refine ((ih.function .method).weaken (fun count => ?_) fun _ _ _ _ => id).map ?_
    · simp only [Short]
      omega
    rintro clean taken declaration rest ⟨present, derived⟩
    exact ⟨fun nothing => absurd nothing present, fun isClean => ⟨declaration, rfl, derived isClean⟩⟩
  refine Reads.bind ((reads_untilBrace (short_mono _ _) method).weaken
    (fun count => short_mono _ _ _ _ (by omega)) fun _ _ _ _ => id) ?_
  rintro clean₂ tokens methods ⟨_, _, body⟩
  apply Reads.bind (reads_expect .rightBrace _)
  rintro _ _ closing ⟨_, rfl, rfl, closes⟩
  refine Reads.pure fun _ _ _ _ _ _ => ⟨by simp, fun isClean word keyword => ?_⟩
  simp only [Bool.true_and, Bool.and_true, Bool.and_eq_true] at isClean
  simpa using Declaration.classDecl keyword named (inherits isClean.1) opens (body isClean.2) closes

theorem reads_function (ih : ReadsStatements rule room) (sort : FunctionSort) :
    Reads (function (room + 1) sort) (Short (room + 1) 14) (Covers (Grammar.Function rule)) := by
  unfold function
  apply Reads.bind (reads_expect .identifier _)
  rintro _ _ name ⟨_, rfl, rfl, named⟩
  apply Reads.bind (reads_expect .leftParen _)
  rintro _ _ opening ⟨_, rfl, rfl, opens⟩
  have param : Reads (expect .identifier "parameter name") (fun _ => False) (Covers Name) :=
    (reads_expect .identifier _).weaken (fun _ => id) fun _ _ _ _ ⟨_, same, kind⟩ =>
      ⟨by simp [same], fun _ => by rw [same]; exact .token kind⟩
  refine Reads.bind ((reads_parenthesized .tooManyParameters _ (fun _ _ _ => id) param).weaken
    (fun _ => False.elim) fun _ _ _ _ => id) ?_
  rintro clean₁ heading ⟨params, closing⟩ ⟨_, _, listed⟩
  apply Reads.bind (reads_expect .leftBrace _)
  rintro _ _ brace ⟨_, rfl, rfl, braced⟩
  refine Reads.bind (ih.block.weaken (fun count => ?_) fun _ _ _ _ => id) ?_
  · simp only [Short, List.length_singleton]
    omega
  rintro clean₂ tokens body ⟨_, _, derived⟩
  refine Reads.pure fun _ _ _ _ _ _ => ⟨by simp, fun isClean => ?_⟩
  simp only [Bool.true_and, Bool.and_true, Bool.and_eq_true] at isClean
  obtain ⟨inner, rfl, closes, listing⟩ := listed isClean.1
  simpa using Grammar.Function.named named opens listing closes (derived isClean.2 brace braced)

theorem reads_block (ih : ReadsStatements rule room) :
    Reads (block (room + 1)) (Short (room + 1) 13)
      (Covers fun taken body => ∀ opening : Token, opening.kind = .leftBrace →
        Block rule (opening :: taken) body) := by
  have item : Reads (declaration room) (Short (room + 1) 13) (CoversDeclaration rule) :=
    ih.declaration.weaken (fun count => by simp only [Short]; omega) fun _ _ _ _ => id
  apply Reads.bind (reads_untilBrace (short_mono _ _) item)
  rintro clean tokens body ⟨_, _, derived⟩
  apply Reads.bind (reads_expect .rightBrace _)
  rintro _ _ closing ⟨_, rfl, rfl, closes⟩
  refine Reads.pure fun _ _ _ => ⟨by simp, fun isClean opening opens => ?_⟩
  exact .braced opens (derived (by simpa using isClean)) closes

private theorem reads_forStatement (ih : ReadsStatements rule room) (word : Token)
    (keyword : word.kind = .forWord) :
    Reads (do
      let _ ← expect .leftParen "'(' after 'for'"
      let initial ← forInitial room
      let test ← forClause room .semicolon "';' after loop condition"
      let increment ← forClause room .rightParen "')' after for clauses"
      return .forLoop initial test increment (← statement room)) (fun count => Short (room + 1) 11 (1 + count))
      fun clean taken stmt rest => CoversStatement rule clean (word :: taken) stmt rest := by
  apply Reads.bind (reads_expect .leftParen _)
  rintro _ _ opening ⟨_, rfl, rfl, opens⟩
  refine Reads.bind ((reads_forInitial room).weaken (fun count => ?_) fun _ _ _ _ => id) ?_
  · simp only [Short, List.length_singleton]
    omega
  rintro clean₁ first initial ⟨_, _, start⟩
  refine Reads.bind ((reads_forClause room .semicolon _).weaken (fun count => ?_) fun _ _ _ _ => id) ?_
  · simp only [Short, List.length_singleton]
    omega
  rintro clean₂ second test ⟨_, _, testing⟩
  refine Reads.bind ((reads_forClause room .rightParen _).weaken (fun count => ?_) fun _ _ _ _ => id) ?_
  · simp only [Short, List.length_singleton]
    omega
  rintro clean₃ third increment ⟨_, _, stepping⟩
  refine Reads.bind (ih.statement.weaken (fun count => ?_) fun _ _ _ _ => id) ?_
  · simp only [Short, List.length_singleton]
    omega
  rintro clean₄ tokens body -
  refine Reads.pure fun rest formed _ _ _ _ => ⟨by simp, fun isClean => ?_⟩
  simp only [Bool.true_and, Bool.and_true, Bool.and_eq_true] at isClean
  obtain ⟨isClean₁, isClean₂, isClean₃, isClean₄⟩ := isClean
  obtain ⟨second, semicolon, rfl, ends, test⟩ := testing isClean₂
  obtain ⟨third, closing, rfl, closes, step⟩ := stepping isClean₃
  obtain ⟨dangling, inside, free⟩ := formed.2 isClean₄
  refine ⟨dangling, ?_, by simpa using free⟩
  simpa using Statement.forLoop keyword opens (start isClean₁) test ends step closes inside

private theorem reads_ifStatement (ih : ReadsStatements rule room) (word : Token)
    (keyword : word.kind = .ifWord) :
    Reads (do
      let test ← condition room "'(' after 'if'" "')' after if condition"
      let accepted ← statement room
      match ← accept .elseWord with
      | none => return .ifThen test accepted
      | some _ => return .ifElse test accepted (← statement room)) (fun count => Short (room + 1) 11 (1 + count))
      fun clean taken stmt rest => CoversStatement rule clean (word :: taken) stmt rest := by
  refine Reads.bind ((reads_condition room _ _).weaken (fun count => ?_) fun _ _ _ _ => id) ?_
  · simp only [Short]
    omega
  rintro clean₁ test condition ⟨_, _, testing⟩
  refine Reads.bind (ih.statement.weaken (fun count => ?_) fun _ _ _ _ => id) ?_
  · simp only [Short]
    omega
  rintro clean₂ tokens accepted -
  refine reads_choice (fun other otherwise => ?_) ?_
  · refine Reads.bind (ih.statement.weaken (fun count => ?_) fun _ _ _ _ => id) ?_
    · simp only [Short]
      omega
    rintro clean₃ rest rejected -
    refine Reads.pure fun left formed₂ formed₁ _ => ⟨by simp, fun isClean => ?_⟩
    simp only [Bool.and_true, Bool.and_eq_true] at isClean
    obtain ⟨isClean₁, isClean₂, isClean₃⟩ := isClean
    obtain ⟨opening, test, closing, rfl, opens, tested, closes⟩ := testing isClean₁
    obtain ⟨inner, inside, free⟩ := formed₁.2 isClean₂
    obtain ⟨dangling, outside, free'⟩ := formed₂.2 isClean₃
    -- The `else` was at hand after the accepted branch, which therefore could not take it itself.
    have closed : inner = false := by
      cases inner
      · rfl
      · exact absurd (by simp [otherwise]) (free rfl)
    have allowed : rule.Allows inner := by cases rule <;> simp [ElseRule.Allows, closed]
    refine ⟨dangling, ?_, by simpa using free'⟩
    simpa using Statement.ifElse keyword opens tested closes inside allowed otherwise outside
  · refine Reads.pure fun rest missing formed _ => ⟨by simp, fun isClean => ?_⟩
    simp only [Bool.and_true, Bool.and_eq_true] at isClean
    obtain ⟨opening, test, closing, rfl, opens, tested, closes⟩ := testing isClean.1
    obtain ⟨inner, inside, _⟩ := formed.2 isClean.2
    refine ⟨true, ?_, fun _ => by simpa using missing⟩
    simpa using Statement.ifThen keyword opens tested closes inside

theorem reads_statement (ih : ReadsStatements rule room) :
    Reads (statement (room + 1)) (Short (room + 1) 11) (CoversStatement rule) := by
  unfold statement
  refine reads_choice (reads_forStatement ih) (reads_choice (fun word keyword => ?ifStmt)
    (reads_choice (fun word keyword => ?print) (reads_choice (fun word keyword => ?returnStmt)
    (reads_choice (fun word keyword => ?whileLoop) (reads_choice (fun opening opens => ?block) ?expression)))))
  case ifStmt =>
    exact (reads_ifStatement ih word keyword).weaken (fun _ => id) fun _ _ _ _ formed _ => formed
  case print =>
    refine (reads_printStatement rule room).weaken (fun count => ?_) fun _ _ _ _ formed _ _ => ?_
    · simp only [Short]
      omega
    · exact ⟨by simp, fun isClean => ⟨false, formed.2 isClean word keyword, by simp⟩⟩
  case returnStmt =>
    refine (reads_returnStatement rule room word keyword).weaken (fun count => ?_) fun _ _ _ _ formed _ _ _ => ?_
    · simp only [Short]
      omega
    · exact ⟨by simp, fun isClean => ⟨false, formed.2 isClean, by simp⟩⟩
  case whileLoop =>
    refine Reads.bind ((reads_condition room _ _).weaken (fun count => ?_) fun _ _ _ _ => id) ?_
    · simp only [Short]
      omega
    rintro clean₁ test condition ⟨_, _, testing⟩
    refine Reads.bind (ih.statement.weaken (fun count => ?_) fun _ _ _ _ => id) ?_
    · simp only [Short]
      omega
    rintro clean₂ tokens body -
    refine Reads.pure fun rest formed _ _ _ _ _ => ⟨by simp, fun isClean => ?_⟩
    simp only [Bool.and_true, Bool.and_eq_true] at isClean
    obtain ⟨opening, test, closing, rfl, opens, tested, closes⟩ := testing isClean.1
    obtain ⟨dangling, inside, free⟩ := formed.2 isClean.2
    refine ⟨dangling, ?_, by simpa using free⟩
    simpa using Statement.whileLoop keyword opens tested closes inside
  case block =>
    refine Reads.bind (ih.block.weaken (fun count => ?_) fun _ _ _ _ => id) ?_
    · simp only [Short]
      omega
    rintro clean tokens body ⟨_, _, derived⟩
    refine Reads.pure fun _ _ _ _ _ _ _ => ⟨by simp, fun isClean => ⟨false, ?_, by simp⟩⟩
    simpa using Statement.block (derived (by simpa using isClean) opening opens)
  case expression =>
    refine (reads_expressionStatement room).weaken (fun count => ?_) fun _ _ _ _ formed _ _ _ _ _ _ => ?_
    · simp only [Short]
      omega
    · exact ⟨formed.1, fun isClean => ⟨false, .expression (formed.2 isClean), by simp⟩⟩

theorem readsStatements (rule : ElseRule) (room : Nat) : ReadsStatements rule room := by
  induction room with
  | zero =>
    have short (rules count : Nat) (positive : 0 < rules) : Short 0 rules count := by
      unfold Short
      omega
    refine ⟨?_, ?_, fun sort => ?_, ?_, ?_⟩
    all_goals exact reads_tooDeep _ fun _ => short _ _ (by decide)
  | succ room ih =>
    exact ⟨reads_declaration ih, reads_classDeclaration ih, reads_function ih, reads_block ih,
      reads_statement ih⟩

/-- A program that was read without a fault is one of the grammar. -/
theorem reads_program (rule : ElseRule) (room : Nat) :
    Reads (program room) (Short room 12)
      fun clean taken program rest => rest = [] ∧ (clean = true → Grammar.Program rule taken program) :=
  reads_collect (short_mono _ _) reads_atEnd rfl (readsStatements rule room).declaration

end Lox.Parse
