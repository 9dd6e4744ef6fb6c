import Lox.Proofs.Grammar.Held
import Lox.Proofs.Grammar.Soundness.Expressions

/-!
What the rules build, with or without faults. Every rule adds one node to those held, made of the tokens it took; what
it reads on the way and throws away after a fault is not held any longer.
-/
namespace Lox.Parse

open Grammar Node

/-- The rule adds a node to those that are held, whatever they are. -/
def Builds {α : Type} (action : Parse α) (node : α → Node Unit) : Prop :=
  ∀ nodes, Leads (.nodes nodes) action fun value => .nodes (node value :: nodes)

/-- A rule that adds a node comes first, and the others go on with that node held. -/
theorem Builds.first {α β : Type} {action : Parse α} {node : α → Node Unit} {next : α → Parse β} {after : β → Known}
    {nodes : List (Node Unit)} (builds : Builds action node)
    (continues : ∀ value, Leads (.nodes (node value :: nodes)) (next value) after) :
    Leads (.nodes nodes) (action >>= next) after :=
  (builds nodes).bind continues

/-- What the rules for expressions build with some room. -/
structure BuildsExpressions (room : Nat) : Prop where
  assignment : Builds (assignment room) .expr
  tier (level : Tier) : Builds (tier room level) .expr
  unary : Builds (unary room) .expr
  call : Builds (call room) .expr
  primary : Builds (primary room) .expr

section Held

variable {nodes : List (Node Unit)} {clean : Bool} {taken : List Token}

/-- A target becomes an assignment to what it reads, by the same name. -/
theorem held_assignment {target value expr : Expr Unit} (assigned : target.assignment? value = some expr)
    (held : Held (.expr value :: .expr target :: nodes) clean taken) : Held (.expr expr :: nodes) clean taken := by
  have named := (held.formed (.expr target) (by simp)).self
  cases target with
  | read name note =>
    cases assigned
    have both : Held ([.expr value, .expr (.read name note)] ++ nodes) clean taken := held
    refine both.replace (by simp [parts, exprParts]) named (fun _ => trivial) ?_
    have same : (Node.expr (.assign name note value)).references = name :: (Node.expr value).references := by
      rw [references_eq]
      exact congrArg _ (List.append_nil _)
    have read : (Node.expr (.read name note)).references = [name] := by
      rw [references_eq]
      rfl
    rw [List.flatMap_cons, List.flatMap_singleton, same, read]
    exact (List.perm_append_singleton ..).symm.subperm
  | get object name =>
    cases assigned
    have inside : Held (.expr value :: .expr object :: nodes) clean taken := held.swap.opened.swap
    exact inside.build named (fun _ => trivial) rfl
  | _ => cases assigned

theorem held_join {joiner : Joiner} {level : Tier} {left right : Expr Unit} {sign : Token}
    (found : level.joiner? sign.kind = some joiner) (held : Held (.expr right :: .expr left :: nodes) clean taken) :
    Held (.expr (joiner.join left sign right) :: nodes) clean taken := by
  have operator := operator_of_joiner? found
  cases joiner <;> exact held.build ⟨level, operator⟩ (fun _ => trivial) rfl

/-- Such a token is a value or a reference. -/
theorem leaf_of_ofToken? {token : Token} {expr : Expr Unit} (found : Expr.ofToken? token = some expr) :
    (∃ value, expr = .literal value) ∨ (token.kind = .identifier ∧ expr = .read token ()) ∨
      token.kind = .thisWord ∧ expr = .this token () := by
  unfold Expr.ofToken? at found
  split at found <;> cases found <;> simp [*]

theorem held_atom {token : Token} {expr : Expr Unit} (found : Expr.ofToken? token = some expr)
    (held : ((Known.nodes nodes).past token).Holds clean taken) : Held (.expr expr :: nodes) clean taken := by
  rcases leaf_of_ofToken? found with ⟨value, rfl⟩ | ⟨kind, rfl⟩ | ⟨kind, rfl⟩
  · exact Held.leaf held rfl (.inr ⟨token, List.mem_singleton_self token, found⟩) trivial (List.nil_sublist _)
  · exact Held.leaf held rfl kind trivial (List.Sublist.refl _)
  · exact Held.leaf held rfl kind trivial (List.Sublist.refl _)

end Held

theorem builds_assignment {room : Nat} (ih : BuildsExpressions room) : Builds (assignment (room + 1)) .expr := by
  intro nodes
  unfold assignment
  refine (ih.tier .or nodes).bind fun target => ?_
  refine leads_choice (fun equals _ => ?_) (.pure fun _ _ => id)
  refine (ih.assignment _).bind fun value => ?_
  cases assigned : target.assignment? value with
  | some expr => exact .pure fun _ _ => held_assignment assigned
  | none => exact (leads_complain equals .invalidTarget).bind fun _ => .pure fun _ _ => Held.tail

theorem builds_tier {room : Nat} (ih : BuildsExpressions room) (level : Tier) :
    Builds (tier (room + 1) level) .expr := by
  intro nodes
  unfold tier
  dsimp only
  refine Builds.first ?_ fun first => leads_repeating (fun left => .nodes (.expr left :: nodes)) fun left => ?_
  on_goal 2 =>
    refine leads_selected (fun joiner sign found => ?_) (.pure fun _ _ => id)
    refine Builds.first ?_ fun right => .pure fun _ _ => held_join found
  -- The operands on both sides of a sign are read by the same rule.
  all_goals
    cases level.tighter? with
    | some next => exact ih.tier next
    | none => exact ih.unary

theorem builds_unary {room : Nat} (ih : BuildsExpressions room) : Builds (unary (room + 1)) .expr := by
  intro nodes
  unfold unary
  refine leads_selected (fun op sign found => ?_) (ih.call nodes)
  exact (ih.unary nodes).bind fun operand => .pure fun _ _ held =>
    held.build (sign_of_ofKind? found) (fun _ => trivial) rfl

theorem builds_call {room : Nat} (ih : BuildsExpressions room) : Builds (call (room + 1)) .expr := by
  intro nodes
  unfold call
  refine (ih.primary nodes).bind fun callee =>
    leads_repeating (fun object => .nodes (.expr object :: nodes)) fun object => ?_
  refine leads_choice (fun _ _ => ?_) (leads_choice (fun _ _ => ?_) (.pure fun _ _ => id))
  · let read (arguments : List (Expr Unit)) : Known := .nodes (arguments.map .expr ++ .expr object :: nodes)
    refine (leads_parenthesized read fun _ => ih.assignment _).bind fun result => ?_
    obtain ⟨arguments, paren⟩ := result
    refine .of_fact fun closes => .pure fun _ _ known => Held.build ?_ closes known.2 rfl
    simpa [parts, exprParts, read, Function.comp_def] using known.1
  · refine leads_expect fun name named => .pure fun _ _ held => ?_
    exact held.build named (fun _ => trivial) rfl

/-- A token that is an expression by itself. -/
theorem leads_atom (nodes : List (Node Unit)) : Leads (.nodes nodes) atom fun value =>
    .nodes ((value.map Node.expr).toList ++ nodes) := by
  intro clean taken held
  refine reads_atom.weaken (fun _ => id) ?_
  rintro _ _ _ _ ⟨rfl, ⟨rfl, rfl⟩ | ⟨token, expr, rfl, rfl, found⟩⟩
  · simpa using held
  · have past : ((Known.nodes nodes).past token).Holds (clean && true) (taken ++ [token]) := by
      rw [Bool.and_true]
      exact ⟨taken, [], rfl, held⟩
    exact held_atom found past

theorem builds_primary {room : Nat} (ih : BuildsExpressions room) : Builds (primary (room + 1)) .expr := by
  intro nodes
  unfold primary
  refine (leads_atom nodes).bind fun value => ?_
  cases value with
  | some expr => exact .pure fun _ _ => id
  | none =>
    refine leads_choice_past (fun keyword kind => ?super) (leads_choice (fun _ _ => ?group) (leads_refuse _))
    case super =>
      refine leads_expect fun _ _ => leads_expect fun method named => .pure fun _ _ held => ?_
      exact Held.leaf held rfl ⟨kind, named⟩ trivial (List.Sublist.refl _)
    case group =>
      refine (ih.assignment nodes).bind fun inner => leads_expect fun _ _ => .pure fun _ _ held => ?_
      exact held.build trivial (fun _ => trivial) rfl

theorem buildsExpressions (room : Nat) : BuildsExpressions room := by
  induction room with
  | zero =>
    exact ⟨fun _ => leads_tooDeep, fun _ _ => leads_tooDeep, fun _ => leads_tooDeep, fun _ => leads_tooDeep,
      fun _ => leads_tooDeep⟩
  | succ room ih =>
    exact ⟨builds_assignment ih, builds_tier ih, builds_unary ih, builds_call ih, builds_primary ih⟩

theorem builds_expression (room : Nat) : Builds (expression room) .expr := (buildsExpressions room).assignment

/-- The rule builds a statement that declares nothing, as those after a condition are. -/
def BuildsBranch (action : Parse (Stmt Unit)) : Prop :=
  ∀ nodes, Leads (.nodes nodes) action fun stmt =>
    (Known.fact (¬ stmt.IsDeclaration)).and (.nodes (.stmt stmt :: nodes))

theorem BuildsBranch.builds {action : Parse (Stmt Unit)} (branch : BuildsBranch action) : Builds action .stmt := by
  intro nodes
  rw [← bind_pure action]
  exact (branch nodes).bind fun stmt => .of_fact fun _ => .pure fun _ _ => id

theorem builds_printStatement (room : Nat) : BuildsBranch (printStatement room) := by
  intro nodes
  refine (builds_expression room nodes).bind fun value => leads_expect fun _ _ => .pure fun _ _ held => ?_
  exact ⟨id, held.build trivial (fun _ => trivial) rfl⟩

theorem builds_expressionStatement (room : Nat) : BuildsBranch (expressionStatement room) := by
  intro nodes
  refine (builds_expression room nodes).bind fun value => leads_expect fun _ _ => .pure fun _ _ held => ?_
  exact ⟨id, held.build trivial (fun _ => trivial) rfl⟩

/-- An expression that may have been left out. -/
theorem leads_someExpression (room : Nat) (nodes : List (Node Unit)) :
    Leads (.nodes nodes) (some <$> expression room) fun value => .nodes ((value.map Node.expr).toList ++ nodes) :=
  (builds_expression room nodes).map fun _ _ _ => id

@[simp]
theorem map_snd_optional (step : Step) (value : Option (Expr Unit)) :
    (optional step value).map Prod.snd = (value.map Node.expr).toList := by
  cases value <;> rfl

@[simp]
theorem map_snd_inOrder (earlier : List String) (body : List (Stmt Unit)) :
    (inOrder earlier body).map Prod.snd = body.map Node.stmt := by
  induction body generalizing earlier with
  | nil => rfl
  | cons first rest ih => simp [inOrder, ih]

theorem reverse_toList {α : Type} (value : Option α) : value.toList.reverse = value.toList := by
  cases value <;> rfl

theorem builds_returnStatement (room : Nat) {keyword : Token} (kind : keyword.kind = .returnWord) :
    BuildsBranch (returnStatement room keyword) := by
  intro nodes
  refine leads_unless (leads_someExpression room nodes) (fun _ _ => id) fun value => ?_
  refine leads_expect fun _ _ => .pure fun _ _ held => ⟨id, Held.build ?_ kind (fun _ => trivial) rfl⟩
  simpa [parts, stmtParts, reverse_toList] using held

theorem builds_varDeclaration (room : Nat) : Builds (varDeclaration room) .stmt := by
  intro nodes
  refine leads_expect fun name named => ?_
  refine leads_announced (leads_someExpression room nodes) (fun _ _ => id) fun value => ?_
  refine leads_expect fun _ _ => .pure fun _ _ held => Held.build ?_ named (fun _ => trivial) rfl
  simpa [parts, stmtParts, reverse_toList] using held

theorem leads_forInitial (room : Nat) (nodes : List (Node Unit)) : Leads (.nodes nodes) (forInitial room)
    fun value => .nodes ((value.map Node.stmt).toList ++ nodes) := by
  refine leads_choice (fun _ _ => .pure fun _ _ => id) (leads_choice (fun _ _ => ?_) ?_)
  · exact (builds_varDeclaration room nodes).bind fun stmt => .pure fun _ _ => id
  · exact ((builds_expressionStatement room).builds nodes).bind fun stmt => .pure fun _ _ => id

theorem leads_forClause (room : Nat) (close : TokenKind) (what : String) (nodes : List (Node Unit)) :
    Leads (.nodes nodes) (forClause room close what) fun value => .nodes ((value.map Node.expr).toList ++ nodes) := by
  refine leads_unless (leads_someExpression room nodes) (fun _ _ => id) fun value => ?_
  exact leads_expect fun _ _ => .pure fun _ _ => id

theorem builds_condition (room : Nat) (opening closing : String) : Builds (condition room opening closing) .expr := by
  intro nodes
  refine leads_expect fun _ _ => (builds_expression room nodes).bind fun value => ?_
  exact leads_expect fun _ _ => .pure fun _ _ => id

section Loop

variable {initial : Option (Stmt Unit)} {test increment : Option (Expr Unit)} {body : Stmt Unit}
  {nodes : List (Node Unit)} {clean : Bool} {taken : List Token}

theorem held_pair {first second : Stmt Unit} (held : Held (.stmt second :: .stmt first :: nodes) clean taken) :
    Held (.stmt (.block [first, second]) :: nodes) clean taken := by
  have sequence : Held (.sequence [first, second] :: nodes) clean taken := held.build trivial (fun _ => trivial) rfl
  exact sequence.build trivial (fun _ => trivial) rfl

/-- A loop without a condition has one of its own, which no token stands for. -/
theorem held_rounds (plain : ¬ body.IsDeclaration)
    (held : Held (.stmt body :: ((test.map Node.expr).toList ++ nodes)) clean taken) :
    Held (.stmt (.whileLoop (test.getD (.literal (.bool true))) body) :: nodes) clean taken := by
  cases test with
  | none =>
    have always : Held (.expr (.literal (.bool true)) :: .stmt body :: nodes) clean taken :=
      Held.build held (.inl rfl) (fun _ => trivial) rfl
    exact always.swap.build plain (fun _ => trivial) rfl
  | some value => exact Held.build held plain (fun _ => trivial) rfl

theorem held_clauses (plain : ¬ body.IsDeclaration)
    (held : Held (.stmt body :: ((test.map Node.expr).toList ++
      ((initial.map Node.stmt).toList ++ nodes))) clean taken) :
    ¬ (Stmt.forLoop initial test none body).IsDeclaration ∧
      Held (.stmt (.forLoop initial test none body) :: nodes) clean taken := by
  have rounds := held_rounds plain held
  cases initial with
  | none => exact ⟨id, rounds⟩
  | some first => exact ⟨id, held_pair rounds⟩

/-- A `for` loop is put together from its clauses and its body, each of which is used once. -/
theorem held_forLoop (plain : ¬ body.IsDeclaration)
    (held : Held (.stmt body :: ((increment.map Node.expr).toList ++
      ((test.map Node.expr).toList ++ ((initial.map Node.stmt).toList ++ nodes)))) clean taken) :
    ¬ (Stmt.forLoop initial test increment body).IsDeclaration ∧
      Held (.stmt (.forLoop initial test increment body) :: nodes) clean taken := by
  cases increment with
  | none => exact held_clauses plain held
  | some value =>
    have step : Held (.stmt (.expression value) :: .stmt body :: ((test.map Node.expr).toList ++
        ((initial.map Node.stmt).toList ++ nodes))) clean taken :=
      (Held.swap held).build trivial (fun _ => trivial) rfl
    exact held_clauses id (held_pair step)

end Loop

/-- What the rules for statements and declarations build with some room. -/
structure BuildsStatements (room : Nat) : Prop where
  declaration (nodes : List (Node Unit)) : Leads (.nodes nodes) (declaration room)
    fun value => value.elim (.nodes nodes) fun stmt => .nodes (.stmt stmt :: nodes)
  classDeclaration : Builds (classDeclaration room) .stmt
  function (sort : FunctionSort) : Builds (function room sort) .function
  block : Builds (block room) .sequence
  statement : BuildsBranch (statement room)

variable {room : Nat}

theorem builds_declaration (ih : BuildsStatements room) (nodes : List (Node Unit)) :
    Leads (.nodes nodes) (declaration (room + 1))
      fun value => value.elim (.nodes nodes) fun stmt => .nodes (.stmt stmt :: nodes) := by
  have declared : Builds (do
      if (← accept .classWord).isSome then classDeclaration room
      else if (← accept .funWord).isSome then return .funDecl (← function room .function)
      else if (← accept .varWord).isSome then varDeclaration room
      else statement room) .stmt := by
    intro nodes
    refine leads_choice (fun _ _ => ih.classDeclaration nodes) (leads_choice (fun _ _ => ?_)
      (leads_choice (fun _ _ => builds_varDeclaration room nodes) (ih.statement.builds nodes)))
    exact (ih.function .function nodes).bind fun declaration => .pure fun _ _ held =>
      held.build trivial (fun _ => trivial) rfl
  exact leads_recovering (declared nodes)

/-- Declarations in a row, by the rule for one and where they end. -/
theorem builds_sequence {action : Parse (List (Stmt Unit))} (collects : ∀ known : List (Stmt Unit) → Known,
    (∀ read, Leads (known read) (declaration room) fun value =>
      value.elim (known read) fun value => known (value :: read)) →
    Leads (known []) action fun items => known items.reverse) (ih : BuildsStatements room) :
    Builds action .sequence := by
  intro nodes
  have read := collects (fun body => .nodes (body.map .stmt ++ nodes)) fun _ => ih.declaration _
  rw [← bind_pure action]
  refine read.bind fun body => .pure fun _ _ held => Held.build ?_ trivial (fun _ => trivial) rfl
  simpa [parts] using held

theorem builds_classDeclaration (ih : BuildsStatements room) : Builds (classDeclaration (room + 1)) .stmt := by
  intro nodes
  unfold classDeclaration
  refine leads_expect fun name named => ?_
  let parent (superclass : Option Token) : List (Node Unit) :=
    (superclass.map fun superclass => Node.expr (.read superclass ())).toList ++ nodes
  have inherits : Leads (.nodes nodes) (some <$> expect .identifier "superclass name") fun superclass =>
      .nodes (parent superclass) := by
    rw [map_eq_pure_bind]
    refine leads_expect_past fun superclass inherited => .pure fun _ _ held => ?_
    exact Held.leaf held rfl inherited trivial (List.Sublist.refl _)
  refine leads_announced inherits (fun _ _ => id) fun superclass => leads_expect fun _ _ => ?_
  let read (methods : List (FunctionDecl Unit)) : Known := .nodes (methods.map .function ++ parent superclass)
  refine (leads_untilBrace read fun methods => ?_).bind fun methods => leads_expect fun _ _ => .pure ?_
  · exact (ih.function .method _).map fun _ _ _ => id
  · refine fun _ _ held => Held.build ?_ named (fun _ => trivial) rfl
    simpa [parts, stmtParts, parent, read, Function.comp_def, reverse_toList] using held

theorem builds_function (ih : BuildsStatements room) (sort : FunctionSort) :
    Builds (function (room + 1) sort) .function := by
  intro nodes
  unfold function
  refine leads_expect fun name named => leads_expect fun _ _ => ?_
  let read (params : List Token) : Known := (Known.fact (∀ param ∈ params, param.kind = .identifier)).and (.nodes nodes)
  have param (params : List Token) : Leads (read params) (expect .identifier "parameter name")
      fun param => read (param :: params) := by
    rw [← bind_pure (expect .identifier "parameter name")]
    refine leads_expect fun param kind => .pure fun _ _ known => ⟨?_, known.2⟩
    exact List.forall_mem_cons.mpr ⟨kind, known.1⟩
  refine Leads.bind ((leads_parenthesized read param).of_implies fun _ _ held => ⟨nofun, held⟩) fun result => ?_
  obtain ⟨params, paren⟩ := result
  refine .of_fact fun _ => leads_expect fun _ _ => ?_
  rintro clean taken ⟨⟨kinds, held⟩, few⟩
  have named' : name.kind = .identifier ∧ ∀ param ∈ params, param.kind = .identifier :=
    ⟨named, fun param member => kinds param (List.mem_reverse.mpr member)⟩
  refine Leads.bind ((ih.block nodes).and (.ifClean (params.length ≤ maxArguments))) (fun body => .pure ?_) clean taken
    ⟨held, few⟩
  exact fun _ _ known => known.1.build named' known.2 rfl

theorem builds_block (ih : BuildsStatements room) : Builds (block (room + 1)) .sequence := by
  intro nodes
  unfold block
  refine (builds_sequence (fun known => leads_untilBrace known) ih nodes).bind fun body => ?_
  exact leads_expect fun _ _ => .pure fun _ _ => id

theorem builds_statement (ih : BuildsStatements room) : BuildsBranch (statement (room + 1)) := by
  intro nodes
  unfold statement
  refine leads_choice (fun _ _ => ?forLoop) (leads_choice (fun _ _ => ?ifStmt)
    (leads_choice (fun _ _ => builds_printStatement room nodes)
    (leads_choice (fun keyword kind => builds_returnStatement room kind nodes)
    (leads_choice (fun _ _ => ?whileLoop) (leads_choice (fun _ _ => ?block)
    (builds_expressionStatement room nodes))))))
  case forLoop =>
    refine leads_expect fun _ _ => (leads_forInitial room nodes).bind fun initial => ?_
    refine (leads_forClause room .semicolon _ _).bind fun test => ?_
    refine (leads_forClause room .rightParen _ _).bind fun increment => ?_
    exact (ih.statement _).bind fun body => .of_fact fun plain => .pure fun _ _ => held_forLoop plain
  case ifStmt =>
    refine (builds_condition room _ _ nodes).bind fun test => (ih.statement _).bind fun accepted => ?_
    refine .of_fact fun plain => leads_choice (fun _ _ => ?_) (.pure fun _ _ held => ⟨id, ?_⟩)
    · refine (ih.statement _).bind fun rejected => .of_fact fun plain' => .pure fun _ _ held => ⟨id, ?_⟩
      exact Held.build held ⟨plain, plain'⟩ (fun _ => trivial) rfl
    · exact Held.build held plain (fun _ => trivial) rfl
  case whileLoop =>
    refine (builds_condition room _ _ nodes).bind fun test => (ih.statement _).bind fun body => ?_
    exact .of_fact fun plain => .pure fun _ _ held => ⟨id, held.build plain (fun _ => trivial) rfl⟩
  case block =>
    exact (ih.block nodes).bind fun body => .pure fun _ _ held => ⟨id, held.build trivial (fun _ => trivial) rfl⟩

theorem buildsStatements (room : Nat) : BuildsStatements room := by
  induction room with
  | zero =>
    exact ⟨fun _ => leads_tooDeep, fun _ => leads_tooDeep, fun _ _ => leads_tooDeep, fun _ => leads_tooDeep,
      fun _ => leads_tooDeep⟩
  | succ room ih =>
    exact ⟨builds_declaration ih, builds_classDeclaration ih, builds_function ih, builds_block ih, builds_statement ih⟩

theorem builds_program (room : Nat) : Builds (program room) .sequence :=
  builds_sequence (fun known => leads_collect known fun _ => leads_atEnd) (buildsStatements room)

end Lox.Parse
