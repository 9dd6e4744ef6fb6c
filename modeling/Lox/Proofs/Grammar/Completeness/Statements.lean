import Lox.Proofs.Grammar.Completeness.Expressions

/-!
Every statement, declaration and program of the grammar in which each `else` belongs to the nearest `if` is
read, and as the tree of its derivation. Statements end with a token of their own, so that only an `else`
can be taken for a continuation, and only of a statement that is left dangling.
-/
namespace Lox.Parse

open Grammar

/-- The tokens that a statement can start with. -/
def startsStatement : TokenKind → Bool
  | .forWord | .ifWord | .printWord | .returnWord | .whileWord | .leftBrace => true
  | kind => startsExpression kind

/-- The tokens that a declaration can start with. -/
def startsDeclaration : TokenKind → Bool
  | .classWord | .funWord | .varWord => true
  | kind => startsStatement kind

section Firsts

variable {tokens : List Token} {stmt : Stmt Unit} {rule : ElseRule}

theorem ExpressionStatement.starts (derived : ExpressionStatement tokens stmt) : Starts startsExpression tokens := by
  obtain ⟨expression, _⟩ := derived
  exact (Assignment.starts expression).append _

theorem startsStatement_of_startsExpression (kind : TokenKind) (starts : startsExpression kind = true) :
    startsStatement kind = true := by
  cases kind <;> first | rfl | exact starts

theorem startsDeclaration_of_startsStatement (kind : TokenKind) (starts : startsStatement kind = true) :
    startsDeclaration kind = true := by
  cases kind <;> first | rfl | exact starts

theorem Block.opened {body : List (Stmt Unit)} (derived : Block rule tokens body) :
    ∃ opening rest, tokens = opening :: rest ∧ opening.kind = .leftBrace := by
  obtain ⟨opens, _, _⟩ := derived
  exact ⟨_, _, rfl, opens⟩

theorem Statement.starts {dangling : Bool} (derived : Statement rule dangling tokens stmt) :
    Starts startsStatement tokens := by
  have leading {word : Token} {kind : TokenKind} {rest : List Token} (keyword : word.kind = kind)
      (starts : startsStatement kind = true) : Starts startsStatement (word :: rest) :=
    ⟨word, rest, rfl, by rw [keyword]; exact starts⟩
  cases derived with
  | expression ended => exact (ExpressionStatement.starts ended).weaken startsStatement_of_startsExpression
  | forLoop keyword => exact leading keyword rfl
  | ifThen keyword => exact leading keyword rfl
  | ifElse keyword => exact leading keyword rfl
  | print keyword => exact leading keyword rfl
  | returnStmt keyword => exact leading keyword rfl
  | whileLoop keyword => exact leading keyword rfl
  | block block =>
    obtain ⟨_, _, rfl, opens⟩ := Block.opened block
    exact leading opens rfl

theorem Declaration.starts (derived : Declaration rule tokens stmt) : Starts startsDeclaration tokens := by
  have leading {word : Token} {kind : TokenKind} {rest : List Token} (keyword : word.kind = kind)
      (starts : startsDeclaration kind = true) : Starts startsDeclaration (word :: rest) :=
    ⟨word, rest, rfl, by rw [keyword]; exact starts⟩
  cases derived with
  | classDecl keyword => exact leading keyword rfl
  | funDecl keyword => exact leading keyword rfl
  | varDecl declared =>
    obtain ⟨keyword, _, _, _⟩ := declared
    exact leading keyword rfl
  | statement statement => exact (Statement.starts statement).weaken startsDeclaration_of_startsStatement

end Firsts

section Parts

variable {Follow : List Token → Prop} {tokens : List Token} {stmt : Stmt Unit}

theorem takes_expressionStatement (room : Nat) (derived : ExpressionStatement tokens stmt) :
    Takes (expressionStatement room) Follow tokens stmt := by
  obtain ⟨expression, ends⟩ := derived
  refine Takes.bind (takes_expression room expression) (takes_expect ends (Takes.pure _)) fun rest _ => ?_
  exact closed_cons ends rfl

/-- An expression that may be left out, up to a token that neither starts nor continues one. -/
theorem takes_clause (room : Nat) {close : TokenKind} {clause : Option (Expr Unit)} {closing : Token}
    {β : Type} {result : β} {next : Option (Expr Unit) → Parse β}
    (derived : Optional Assignment tokens clause) (ends : closing.kind = close) (closed : closes close = true)
    (unstarted : startsExpression close = false) (continues : Takes (next clause) Follow [closing] result) :
    Takes (do
      let clause ← if ← sees close then pure none else some <$> expression room
      next clause) Follow (tokens ++ [closing]) result := by
  cases derived with
  | none =>
    refine takes_sees true (fun rest _ => by simp [ends]) ?_
    exact continues
  | some derived =>
    refine takes_sees false (fun rest _ => ?_) ?_
    · have other := (Assignment.starts derived).headKind_ne ([closing] ++ rest) unstarted
      simpa [List.append_assoc] using other
    · apply Takes.bind (takes_expression room derived).map continues
      intro rest _
      exact closed_cons ends closed

theorem takes_forClause (room : Nat) {close : TokenKind} {what : String} {clause : Option (Expr Unit)}
    {closing : Token} (derived : Optional Assignment tokens clause) (ends : closing.kind = close)
    (closed : closes close = true) (unstarted : startsExpression close = false) :
    Takes (forClause room close what) Follow (tokens ++ [closing]) clause :=
  takes_clause room derived ends closed unstarted (takes_expect ends (Takes.pure _))

theorem takes_varDeclaration (room : Nat) {word : Token} (derived : VarDecl (word :: tokens) stmt) :
    Takes (varDeclaration room) Follow tokens stmt := by
  obtain ⟨_, named, initializer, ends⟩ := derived
  apply takes_expect named
  cases initializer with
  | none =>
    refine takes_other (fun rest _ => by simp [ends]) ?_
    exact takes_expect ends (Takes.pure _)
  | some sign right =>
    apply takes_found sign
    refine Takes.bind (takes_expression room right).map (takes_expect ends (Takes.pure _)) fun rest _ => ?_
    exact closed_cons ends rfl

theorem takes_forInitial (room : Nat) {initial : Option (Stmt Unit)} (derived : ForInitial tokens initial) :
    Takes (forInitial room) Follow tokens initial := by
  cases derived with
  | none ends => exact takes_found ends (Takes.pure _)
  | varDecl declared =>
    obtain ⟨keyword, named, initializer, ends⟩ := declared
    refine takes_other (fun rest _ => by simp [keyword]) (takes_found keyword ?_)
    exact Takes.last (takes_varDeclaration room (.declared keyword named initializer ends)) (Takes.pure _)
  | expression ended =>
    have starts := ExpressionStatement.starts ended
    refine takes_other (fun rest _ => starts.headKind_ne rest rfl) ?_
    refine takes_other (fun rest _ => starts.headKind_ne rest rfl) ?_
    exact Takes.last (takes_expressionStatement room ended) (Takes.pure _)

theorem takes_condition (room : Nat) {before after : String} {opening closing : Token} {test : Expr Unit}
    (opens : opening.kind = .leftParen) (tested : Assignment tokens test) (ends : closing.kind = .rightParen) :
    Takes (condition room before after) Follow (opening :: (tokens ++ [closing])) test := by
  apply takes_expect opens
  refine Takes.bind (takes_expression room tested) (takes_expect ends (Takes.pure _)) fun rest _ => ?_
  exact closed_cons ends rfl

end Parts

/-- No `else` follows. -/
def NoElse (rest : List Token) : Prop := headKind rest ≠ some .elseWord

/-- What the rules for statements and declarations take with some room. -/
structure TakesStatements (room : Nat) : Prop where
  declaration {tokens : List Token} {stmt : Stmt Unit} (derived : Declaration .nearest tokens stmt) :
    Takes (declaration room) NoElse tokens (some stmt)
  classDeclaration {tokens : List Token} {stmt : Stmt Unit} {word : Token} (keyword : word.kind = .classWord)
    (derived : Declaration .nearest (word :: tokens) stmt) :
    Takes (classDeclaration room) (fun _ => True) tokens stmt
  function {tokens : List Token} {declaration : FunctionDecl Unit} (sort : FunctionSort)
    (derived : Grammar.Function .nearest tokens declaration) :
    Takes (function room sort) (fun _ => True) tokens declaration
  block {tokens : List Token} {body : List (Stmt Unit)} {opening : Token}
    (derived : Block .nearest (opening :: tokens) body) : Takes (block room) (fun _ => True) tokens body
  statement {dangling : Bool} {tokens : List Token} {stmt : Stmt Unit}
    (derived : Statement .nearest dangling tokens stmt) :
    Takes (statement room) (fun rest => dangling = true → NoElse rest) tokens stmt

section Rules

variable {room : Nat} {tokens : List Token} {stmt : Stmt Unit}

theorem takes_declaration (ih : TakesStatements room) (derived : Declaration .nearest tokens stmt) :
    Takes (declaration (room + 1)) NoElse tokens (some stmt) := by
  unfold declaration
  apply takes_recovering
  cases derived with
  | classDecl keyword named inherits opens body closes =>
    refine takes_found keyword ((ih.classDeclaration keyword ?_).weaken fun _ _ => trivial)
    exact .classDecl keyword named inherits opens body closes
  | funDecl keyword function =>
    refine takes_other (fun rest _ => by simp [keyword]) (takes_found keyword ?_)
    exact Takes.last ((ih.function .function function).weaken fun _ _ => trivial) (Takes.pure _)
  | varDecl declared =>
    obtain ⟨keyword, named, initializer, ends⟩ := declared
    refine takes_other (fun rest _ => by simp [keyword]) (takes_other (fun rest _ => by simp [keyword]) ?_)
    exact takes_found keyword (takes_varDeclaration room (.declared keyword named initializer ends))
  | statement derived =>
    have starts := Statement.starts derived
    refine takes_other (fun rest _ => starts.headKind_ne rest rfl) ?_
    refine takes_other (fun rest _ => starts.headKind_ne rest rfl) ?_
    refine takes_other (fun rest _ => starts.headKind_ne rest rfl) ?_
    exact (ih.statement derived).weaken fun rest none _ => none

theorem takes_classDeclaration (ih : TakesStatements room) {word : Token} (keyword : word.kind = .classWord)
    (derived : Declaration .nearest (word :: tokens) stmt) :
    Takes (classDeclaration (room + 1)) (fun _ => True) tokens stmt := by
  unfold classDeclaration
  cases derived with
  | @classDecl _ name opening closing heading tokens superclass methods _ named inherits opens body closes =>
    have rest : Takes (do
        let methods ← untilBrace (some <$> function room .method)
        let _ ← expect .rightBrace "'\x7d' after class body"
        return (.classDecl name superclass methods : Stmt Unit)) (fun _ => True) (tokens ++ [closing])
        (.classDecl name superclass methods) := by
      refine Takes.bind (takes_untilBrace (fun taken method derived => (ih.function .method derived).map)
        ?_ ?_ ?_ body) (takes_expect closes (Takes.pure _)) fun rest _ => by simp [closes]
      · rintro _ _ ⟨_⟩
        simp
      · rintro _ _ rest ⟨named⟩
        exact ⟨trivial, by simp [named]⟩
      · exact fun _ _ => trivial
    apply takes_expect named
    cases inherits with
    | none => exact takes_other (fun rest _ => by simp [opens]) (takes_expect opens rest)
    | some sign inherited =>
      apply takes_found sign
      exact (takes_expected inherited).map.andThen (takes_expect opens rest)
  | varDecl declared =>
    obtain ⟨other, _⟩ := declared
    simp [other] at keyword
  | funDecl other => simp [other] at keyword
  | statement statement =>
    have other : headKind (word :: tokens ++ []) ≠ some .classWord :=
      (Statement.starts statement).headKind_ne [] rfl
    simp [keyword] at other

theorem takes_function (ih : TakesStatements room) (sort : FunctionSort) {declaration : FunctionDecl Unit}
    (derived : Grammar.Function .nearest tokens declaration) :
    Takes (function (room + 1) sort) (fun _ => True) tokens declaration := by
  obtain @⟨_, _, closing, heading, _, params, body, named, opens, listing, closes, block⟩ := derived
  obtain ⟨brace, tokens, rfl, braced⟩ := Block.opened block
  have param (taken : List Token) (name : Token) (derived : Name taken name) :
      Takes (expect .identifier "parameter name") (fun _ => True) taken name := by
    obtain ⟨named⟩ := derived
    exact takes_expected named
  have listed : Takes (parenthesized (expect .identifier "parameter name") .tooManyParameters
      "')' after parameters") (fun _ => True) (heading ++ [closing]) (params, closing) := by
    refine takes_parenthesized param ?_ (fun _ _ => trivial) listing closes
    rintro _ _ rest ⟨named⟩
    simp [named]
  unfold function
  refine takes_expect named (takes_expect opens ?_)
  rw [List.append_cons]
  exact listed.andThen (takes_expect braced (Takes.last (ih.block block) (Takes.pure _)))

theorem takes_block (ih : TakesStatements room) {body : List (Stmt Unit)} {opening : Token}
    (derived : Block .nearest (opening :: tokens) body) :
    Takes (block (room + 1)) (fun _ => True) tokens body := by
  obtain ⟨_, inside, closes⟩ := derived
  unfold block
  refine Takes.bind (takes_untilBrace (fun _ _ derived => ih.declaration derived) ?_ ?_ ?_ inside)
    (takes_expect closes (Takes.pure _)) fun rest _ => by simp [closes]
  · exact fun taken stmt derived => (Declaration.starts derived).ne_nil
  · intro taken stmt rest derived
    have starts := Declaration.starts derived
    exact ⟨starts.headKind_ne rest rfl, starts.headKind_ne rest rfl⟩
  · intro rest closed
    simp [NoElse, closed]

theorem takes_statement (ih : TakesStatements room) {dangling : Bool}
    (derived : Statement .nearest dangling tokens stmt) :
    Takes (statement (room + 1)) (fun rest => dangling = true → NoElse rest) tokens stmt := by
  unfold statement
  cases derived with
  | expression ended =>
    have starts := ExpressionStatement.starts ended
    refine takes_other (fun rest _ => starts.headKind_ne rest rfl) ?_
    refine takes_other (fun rest _ => starts.headKind_ne rest rfl) ?_
    refine takes_other (fun rest _ => starts.headKind_ne rest rfl) ?_
    refine takes_other (fun rest _ => starts.headKind_ne rest rfl) ?_
    refine takes_other (fun rest _ => starts.headKind_ne rest rfl) ?_
    refine takes_other (fun rest _ => starts.headKind_ne rest rfl) ?_
    exact takes_expressionStatement room ended
  | @forLoop _ _ semicolon closing first second third tokens _ _ _ _ _ keyword opens start test ends step closes inside =>
    refine takes_found keyword (takes_expect opens ?_)
    apply (takes_forInitial room start).andThen
    rw [List.append_cons]
    apply (takes_forClause room test ends rfl rfl).andThen
    rw [List.append_cons]
    apply (takes_forClause room step closes rfl rfl).andThen
    exact Takes.last (ih.statement inside) (Takes.pure _)
  | @ifThen _ opening closing test tokens _ inner _ keyword opens tested closes inside =>
    refine takes_other (fun rest _ => by simp [keyword]) (takes_found keyword ?_)
    rw [List.append_cons, ← List.cons_append]
    apply (takes_condition room opens tested closes).andThen
    refine Takes.last ((ih.statement inside).weaken fun rest none _ => none rfl) ?_
    exact takes_other (fun rest none => none rfl) (Takes.pure _)
  | @ifElse _ opening closing other test tokens rest _ inner dangling _ _ keyword opens tested closes inside
      allowed otherwise outside =>
    -- The accepted branch cannot take the `else`, so that it may follow.
    have whole : inner = false := allowed
    refine takes_other (fun rest _ => by simp [keyword]) (takes_found keyword ?_)
    rw [List.append_cons, ← List.cons_append]
    apply (takes_condition room opens tested closes).andThen
    refine Takes.andThen ((ih.statement inside).weaken fun rest _ dangles => ?_) ?_
    · rw [whole] at dangles
      cases dangles
    · exact takes_found otherwise (Takes.last (ih.statement outside) (Takes.pure _))
  | print keyword expression ends =>
    refine takes_other (fun rest _ => by simp [keyword]) ?_
    refine takes_other (fun rest _ => by simp [keyword]) (takes_found keyword ?_)
    refine Takes.bind (takes_expression room expression) (takes_expect ends (Takes.pure _)) fun rest _ => ?_
    exact closed_cons ends rfl
  | returnStmt keyword expression ends =>
    refine takes_other (fun rest _ => by simp [keyword]) ?_
    refine takes_other (fun rest _ => by simp [keyword]) ?_
    refine takes_other (fun rest _ => by simp [keyword]) (takes_found keyword ?_)
    exact takes_clause room expression ends rfl rfl (takes_expect ends (Takes.pure _))
  | whileLoop keyword opens tested closes inside =>
    refine takes_other (fun rest _ => by simp [keyword]) ?_
    refine takes_other (fun rest _ => by simp [keyword]) ?_
    refine takes_other (fun rest _ => by simp [keyword]) ?_
    refine takes_other (fun rest _ => by simp [keyword]) (takes_found keyword ?_)
    rw [List.append_cons, ← List.cons_append]
    apply (takes_condition room opens tested closes).andThen
    exact Takes.last (ih.statement inside) (Takes.pure _)
  | block block =>
    obtain ⟨opening, rest, rfl, opens⟩ := Block.opened block
    refine takes_other (fun rest _ => by simp [opens]) ?_
    refine takes_other (fun rest _ => by simp [opens]) ?_
    refine takes_other (fun rest _ => by simp [opens]) ?_
    refine takes_other (fun rest _ => by simp [opens]) ?_
    refine takes_other (fun rest _ => by simp [opens]) (takes_found opens ?_)
    exact Takes.last ((ih.block block).weaken fun _ _ => trivial) (Takes.pure _)

end Rules

theorem takesStatements (room : Nat) : TakesStatements room := by
  induction room with
  | zero => exact ⟨fun _ => Takes.tooDeep, fun _ _ => Takes.tooDeep, fun _ _ => Takes.tooDeep,
      fun _ => Takes.tooDeep, fun _ => Takes.tooDeep⟩
  | succ room ih =>
    exact ⟨takes_declaration ih, takes_classDeclaration ih, fun sort => takes_function ih sort, takes_block ih,
      takes_statement ih⟩

/-- What a declaration starts with cannot continue the one before it, and is not the end. -/
theorem declaration_starts (taken : List Token) (stmt : Stmt Unit) (rest : List Token)
    (derived : Declaration .nearest taken stmt) : NoElse (taken ++ rest) ∧ (taken ++ rest).isEmpty = false := by
  have starts := Declaration.starts derived
  exact ⟨starts.headKind_ne rest rfl, by simp [starts.ne_nil]⟩

/-- A program of the grammar is read, up to the end of the tokens. -/
theorem takes_program (room : Nat) {tokens : List Token} {program : Lox.Program Unit}
    (derived : Grammar.Program .nearest tokens program) :
    Takes (Parse.program room) (· = []) tokens program := by
  refine takes_collect List.isEmpty (fun _ => rfl) (fun _ _ derived => (takesStatements room).declaration derived)
    (fun _ _ derived => (Declaration.starts derived).ne_nil) declaration_starts ?_ derived
  rintro _ rfl
  exact ⟨by simp [NoElse], rfl⟩

end Lox.Parse
