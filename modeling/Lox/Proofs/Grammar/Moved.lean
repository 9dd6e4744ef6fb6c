import Lox.Proofs.Tree.Moved

/-!
Reading does not look at places. Where the tokens of two lists are the same one by one, but for their places, the same
is read and the same faults are seen, each at the token that has moved.
-/
namespace Lox

/-- Readers at the same point of two token lists. -/
structure Reader.Moved (Moves : Token → Token → Prop) (reader reader' : Reader) : Prop where
  upcoming : List.Forall₂ Moves reader.upcoming reader'.upcoming
  finish : Moves reader.finish reader'.finish
  faults : List.Forall₂ (Located.Moved Moves) reader.faults.toList reader'.faults.toList

namespace Parse

variable {Moves : Token → Token → Prop} {α α' β β' : Type}

/-- Two ways of reading end alike. -/
inductive Ends (Moves : Token → Token → Prop) (Out : α → α' → Prop) :
    EStateM.Result Stop Reader α → EStateM.Result Stop Reader α' → Prop
  | ok {value value' reader reader'} (out : Out value value') (moved : reader.Moved Moves reader') :
      Ends Moves Out (.ok value reader) (.ok value' reader')
  | error {reader reader'} (stop : Stop) (moved : reader.Moved Moves reader') :
      Ends Moves Out (.error stop reader) (.error stop reader')

/-- Two actions that end alike on readers at the same point. -/
def Twins (Moves : Token → Token → Prop) (action : Parse α) (action' : Parse α') (Out : α → α' → Prop) : Prop :=
  ∀ ⦃reader reader'⦄, reader.Moved Moves reader' → Ends Moves Out (action reader) (action' reader')

section Actions

variable {action : Parse α} {action' : Parse α'} {Out : α → α' → Prop}

theorem Twins.pure {value : α} {value' : α'} (out : Out value value') :
    Twins Moves (Pure.pure value) (Pure.pure value') Out :=
  fun _ _ moved => .ok out moved

theorem Twins.bind {next : α → Parse β} {next' : α' → Parse β'} {Out' : β → β' → Prop}
    (first : Twins Moves action action' Out)
    (second : ∀ value value', Out value value' → Twins Moves (next value) (next' value') Out') :
    Twins Moves (action >>= next) (action' >>= next') Out' := by
  intro reader reader' moved
  have ends := first moved
  simp only [Bind.bind, EStateM.bind]
  generalize action reader = outcome at ends
  generalize action' reader' = outcome' at ends
  cases ends with
  | ok out moved' => exact second _ _ out moved'
  | error stop moved' => exact .error stop moved'

theorem Twins.map {use : α → β} {use' : α' → β'} {Out' : β → β' → Prop} (first : Twins Moves action action' Out)
    (uses : ∀ value value', Out value value' → Out' (use value) (use' value')) :
    Twins Moves (use <$> action) (use' <$> action') Out' := by
  rw [map_eq_pure_bind, map_eq_pure_bind]
  exact first.bind fun value value' out => .pure (uses value value' out)

variable (places : Relocates Moves)

include places

theorem twins_acceptWhere (select : TokenKind → Option β) :
    Twins Moves (acceptWhere select) (acceptWhere select)
      (Option.Rel fun found found' => found'.1 = found.1 ∧ Moves found.2 found'.2) := by
  rintro ⟨upcoming, finish, faults⟩ ⟨upcoming', finish', faults'⟩ ⟨ahead, mark, seen⟩
  cases ahead with
  | nil => exact .ok .none ⟨.nil, mark, seen⟩
  | @cons token token' rest rest' head tail =>
    simp only [acceptWhere, (places head).kind]
    cases select token.kind with
    | none => exact .ok .none ⟨.cons head tail, mark, seen⟩
    | some use => exact .ok (.some ⟨rfl, head⟩) ⟨tail, mark, seen⟩

theorem twins_accept (kind : TokenKind) : Twins Moves (accept kind) (accept kind) (Option.Rel Moves) := by
  rintro ⟨upcoming, finish, faults⟩ ⟨upcoming', finish', faults'⟩ ⟨ahead, mark, seen⟩
  cases ahead with
  | nil => exact .ok .none ⟨.nil, mark, seen⟩
  | @cons token token' rest rest' head tail =>
    simp only [accept, (places head).kind]
    by_cases same : token.kind = kind
    · simp only [same, if_true]
      exact .ok (.some head) ⟨tail, mark, seen⟩
    · simp only [same, if_false]
      exact .ok .none ⟨.cons head tail, mark, seen⟩

theorem twins_sees (kind : TokenKind) : Twins Moves (sees kind) (sees kind) Eq := by
  rintro ⟨upcoming, finish, faults⟩ ⟨upcoming', finish', faults'⟩ ⟨ahead, mark, seen⟩
  cases ahead with
  | nil => exact .ok rfl ⟨.nil, mark, seen⟩
  | cons head tail =>
    simp only [sees, (places head).kind]
    exact .ok rfl ⟨.cons head tail, mark, seen⟩

omit places

theorem twins_atEnd : Twins Moves atEnd atEnd Eq := by
  rintro ⟨upcoming, finish, faults⟩ ⟨upcoming', finish', faults'⟩ ⟨ahead, mark, seen⟩
  cases ahead with
  | nil => exact .ok rfl ⟨.nil, mark, seen⟩
  | cons head tail => exact .ok rfl ⟨.cons head tail, mark, seen⟩

theorem Reader.Moved.record {reader reader' : Reader} (moved : reader.Moved Moves reader') {token token' : Token}
    (head : Moves token token') (cause : SyntaxFault) :
    (reader.record token cause).Moved Moves (reader'.record token' cause) := by
  refine ⟨moved.upcoming, moved.finish, ?_⟩
  simp only [Reader.record, Array.toList_push]
  exact List.rel_append moved.faults (.cons ⟨rfl, head⟩ .nil)

theorem Reader.Moved.current {reader reader' : Reader} (moved : reader.Moved Moves reader') :
    Moves reader.current reader'.current := by
  obtain ⟨upcoming, finish, faults⟩ := reader
  obtain ⟨upcoming', finish', faults'⟩ := reader'
  obtain ⟨ahead, mark, _⟩ := moved
  cases ahead with
  | nil => exact mark
  | cons head tail => exact head

theorem twins_complain {token token' : Token} (head : Moves token token') (cause : SyntaxFault) :
    Twins Moves (complain token cause) (complain token' cause) Eq :=
  fun _ _ moved => .ok rfl (Reader.Moved.record moved head cause)

theorem twins_complainHere (cause : SyntaxFault) : Twins Moves (complainHere cause) (complainHere cause) Eq :=
  fun _ _ moved => .ok rfl (Reader.Moved.record moved (Reader.Moved.current moved) cause)

theorem twins_refuse (cause : SyntaxFault) (Out : α → α' → Prop) : Twins Moves (refuse cause) (refuse cause) Out :=
  fun _ _ moved => .error .fault (Reader.Moved.record moved (Reader.Moved.current moved) cause)

theorem twins_tooDeep (Out : α → α' → Prop) : Twins Moves tooDeep tooDeep Out :=
  fun _ _ moved => .error .tooDeep moved

include places

theorem twins_expect (kind : TokenKind) (what : String) : Twins Moves (expect kind what) (expect kind what) Moves := by
  apply (twins_accept places kind).bind
  rintro _ _ (head | _)
  · exact .pure head
  · exact twins_refuse _ _

omit places

theorem twins_rounds {step : α → Parse (Option α)} {step' : α' → Parse (Option α')}
    (steps : ∀ value value', Out value value' → Twins Moves (step value) (step' value') (Option.Rel Out))
    {bound bound' : List Token} (same : List.Forall₂ Moves bound bound') {value : α} {value' : α'} (out : Out value value') :
    Twins Moves (rounds step bound value) (rounds step' bound' value') Out := by
  induction same generalizing value value' with
  | nil => exact .pure out
  | cons _ _ ih =>
    apply (steps value value' out).bind
    rintro _ _ (more | _)
    · exact ih more
    · exact .pure out

theorem twins_repeating {step : α → Parse (Option α)} {step' : α' → Parse (Option α')}
    (steps : ∀ value value', Out value value' → Twins Moves (step value) (step' value') (Option.Rel Out))
    {value : α} {value' : α'} (out : Out value value') :
    Twins Moves (repeating value step) (repeating value' step') Out :=
  fun _ _ moved => twins_rounds steps moved.upcoming out moved

include places

theorem twins_commaSeparated (items : Twins Moves action action' Out) (tooMany : SyntaxFault) :
    Twins Moves (commaSeparated action tooMany) (commaSeparated action' tooMany) (List.Forall₂ Out) := by
  refine items.bind fun first first' head => ?_
  refine Twins.bind (twins_repeating (fun listed listed' out => ?_) (.cons head .nil)) fun listed listed' out =>
    .pure (List.rel_reverse out)
  apply (twins_accept places .comma).bind
  rintro _ _ (_ | _)
  · have more : Twins Moves (do return some ((← action) :: listed)) (do return some ((← action') :: listed'))
        (Option.Rel (List.Forall₂ Out)) :=
      items.bind fun item item' next => .pure (.some (.cons next out))
    simp only [← List.Forall₂.length_eq out]
    by_cases full : maxArguments ≤ listed.length
    · simp only [full, if_true]
      exact (twins_complainHere tooMany).bind fun _ _ _ => more
    · simp only [full, if_false]
      exact more
  · exact .pure .none

theorem twins_parenthesized (items : Twins Moves action action' Out) (tooMany : SyntaxFault) (close : String) :
    Twins Moves (parenthesized action tooMany close) (parenthesized action' tooMany close)
      fun found found' => List.Forall₂ Out found.1 found'.1 ∧ Moves found.2 found'.2 := by
  apply (twins_sees places .rightParen).bind
  rintro closed _ rfl
  have ends (found : List α) (found' : List α') (out : List.Forall₂ Out found found') :
      Twins Moves (do return (found, ← expect .rightParen close)) (do return (found', ← expect .rightParen close))
        fun found found' => List.Forall₂ Out found.1 found'.1 ∧ Moves found.2 found'.2 :=
    (twins_expect places .rightParen close).bind fun paren paren' token => .pure ⟨out, token⟩
  cases closed
  · exact (twins_commaSeparated places items tooMany).bind ends
  · exact ends [] [] .nil

omit places

theorem twins_collect {done done' : Parse Bool} {item : Parse (Option α)} {item' : Parse (Option α')}
    (ends : Twins Moves done done' Eq) (items : Twins Moves item item' (Option.Rel Out)) :
    Twins Moves (collect done item) (collect done' item') (List.Forall₂ Out) := by
  refine Twins.bind (twins_repeating (fun listed listed' out => ?_) .nil) fun listed listed' out =>
    .pure (List.rel_reverse out)
  apply ends.bind
  rintro isDone _ rfl
  cases isDone
  · apply items.bind
    rintro _ _ (next | _)
    · exact .pure (.some (.cons next out))
    · exact .pure (.some out)
  · exact .pure .none

include places

theorem twins_untilBrace {item : Parse (Option α)} {item' : Parse (Option α')}
    (items : Twins Moves item item' (Option.Rel Out)) :
    Twins Moves (untilBrace item) (untilBrace item') (List.Forall₂ Out) := by
  refine twins_collect ?_ items
  apply (twins_sees places .rightBrace).bind
  rintro closed _ rfl
  cases closed
  · apply twins_atEnd.bind
    rintro ended _ rfl
    exact .pure rfl
  · exact .pure rfl

theorem moved_skipToBoundary {dropped dropped' : Token} {rest rest' : List Token} (head : Moves dropped dropped')
    (tail : List.Forall₂ Moves rest rest') :
    List.Forall₂ Moves (skipToBoundary dropped rest) (skipToBoundary dropped' rest') := by
  induction tail generalizing dropped dropped' with
  | nil => exact .nil
  | @cons next next' rest rest' following tail ih =>
    simp only [skipToBoundary, (places head).kind, (places following).kind]
    split
    · exact .cons following tail
    · exact ih following

theorem twins_recovering (same : Twins Moves action action' Out) :
    Twins Moves (recovering action) (recovering action') (Option.Rel Out) := by
  intro reader reader' moved
  have ends := same moved
  unfold recovering
  generalize action reader = outcome at ends
  generalize action' reader' = outcome' at ends
  cases ends with
  | ok out moved' => exact .ok (.some out) moved'
  | @error after after' stop moved' =>
    cases stop with
    | tooDeep => exact .error .tooDeep moved'
    | fault =>
      obtain ⟨upcoming, finish, faults⟩ := after
      obtain ⟨upcoming', finish', faults'⟩ := after'
      obtain ⟨ahead, mark, seen⟩ := moved'
      cases ahead with
      | nil => exact .ok .none ⟨.nil, mark, seen⟩
      | cons head tail => exact .ok .none ⟨moved_skipToBoundary places head tail, mark, seen⟩

end Actions

section Expressions

variable (places : Relocates Moves)

include places

theorem moved_ofToken? {token token' : Token} (moved : Moves token token') :
    Option.Rel (Expr.Moved Moves) (Expr.ofToken? token) (Expr.ofToken? token') := by
  have elsewhere := places moved
  unfold Expr.ofToken?
  rw [elsewhere.kind, elsewhere.literal]
  cases token.kind with
  | falseWord | trueWord | nilWord | number | string => exact .some (.literal _)
  | thisWord => exact .some (.this moved)
  | identifier => exact .some (.read moved)
  | _ => exact .none

theorem twins_atom : Twins Moves atom atom (Option.Rel (Expr.Moved Moves)) := by
  rintro ⟨upcoming, finish, faults⟩ ⟨upcoming', finish', faults'⟩ ⟨ahead, mark, seen⟩
  cases ahead with
  | nil => exact .ok .none ⟨.nil, mark, seen⟩
  | @cons token token' rest rest' head tail =>
    have found := moved_ofToken? places head
    simp only [atom]
    generalize Expr.ofToken? token = expr at found
    generalize Expr.ofToken? token' = expr' at found
    cases found with
    | none => exact .ok .none ⟨.cons head tail, mark, seen⟩
    | some expr => exact .ok (.some expr) ⟨tail, mark, seen⟩

/-- The rules for expressions, each with the same room. -/
structure TwinRules (Moves : Token → Token → Prop) (room : Nat) : Prop where
  assignment : Twins Moves (assignment room) (assignment room) (Expr.Moved Moves)
  tier : ∀ level, Twins Moves (tier room level) (tier room level) (Expr.Moved Moves)
  unary : Twins Moves (unary room) (unary room) (Expr.Moved Moves)
  call : Twins Moves (call room) (call room) (Expr.Moved Moves)
  primary : Twins Moves (primary room) (primary room) (Expr.Moved Moves)

variable {room : Nat}

theorem TwinRules.assignment_succ (rules : TwinRules Moves room) :
    Twins Moves (Parse.assignment (room + 1)) (Parse.assignment (room + 1)) (Expr.Moved Moves) := by
  unfold Parse.assignment
  refine (rules.tier .or).bind fun target target' left => ?_
  apply (twins_accept places .equal).bind
  rintro _ _ (@⟨equals, equals', sign⟩ | _)
  · refine rules.assignment.bind fun value value' right => ?_
    have made := Expr.moved_assignment? left right
    generalize target.assignment? value = expr at made
    generalize target'.assignment? value' = expr' at made
    cases made with
    | some expr => exact .pure expr
    | none => exact (twins_complain sign .invalidTarget).bind fun _ _ _ => .pure left
  · exact .pure left

theorem TwinRules.tier_succ (rules : TwinRules Moves room) (level : Tier) :
    Twins Moves (Parse.tier (room + 1) level) (Parse.tier (room + 1) level) (Expr.Moved Moves) := by
  unfold Parse.tier
  refine (fun operand : Twins Moves _ _ (Expr.Moved Moves) => operand.bind fun first first' head =>
    twins_repeating (fun left left' before => ?_) head) ?_
  · apply (twins_acceptWhere places level.joiner?).bind
    rintro _ _ (@⟨⟨joiner, sign⟩, ⟨_, sign'⟩, rfl, token⟩ | _)
    · exact operand.bind fun right right' after => .pure (.some (Expr.moved_join before token after))
    · exact .pure .none
  · cases level.tighter? with
    | some next => exact rules.tier next
    | none => exact rules.unary

theorem TwinRules.unary_succ (rules : TwinRules Moves room) :
    Twins Moves (Parse.unary (room + 1)) (Parse.unary (room + 1)) (Expr.Moved Moves) := by
  unfold Parse.unary
  apply (twins_acceptWhere places UnaryOp.ofKind?).bind
  rintro _ _ (@⟨⟨op, sign⟩, ⟨_, sign'⟩, rfl, token⟩ | _)
  · exact rules.unary.bind fun operand operand' part => .pure (.unary token part)
  · exact rules.call

theorem TwinRules.call_succ (rules : TwinRules Moves room) :
    Twins Moves (Parse.call (room + 1)) (Parse.call (room + 1)) (Expr.Moved Moves) := by
  unfold Parse.call
  refine rules.primary.bind fun callee callee' head => twins_repeating (fun object object' before => ?_) head
  apply (twins_accept places .leftParen).bind
  rintro _ _ (_ | _)
  · refine (twins_parenthesized places rules.assignment _ _).bind ?_
    rintro ⟨arguments, paren⟩ ⟨arguments', paren'⟩ ⟨parts, token⟩
    exact .pure (.some (.call token before parts))
  · apply (twins_accept places .dot).bind
    rintro _ _ (_ | _)
    · exact (twins_expect places .identifier _).bind fun name name' token => .pure (.some (.get token before))
    · exact .pure .none

theorem TwinRules.primary_succ (rules : TwinRules Moves room) :
    Twins Moves (Parse.primary (room + 1)) (Parse.primary (room + 1)) (Expr.Moved Moves) := by
  unfold Parse.primary
  apply (twins_atom places).bind
  rintro _ _ (expr | _)
  · exact .pure expr
  apply (twins_accept places .superWord).bind
  rintro _ _ (keyword | _)
  · refine (twins_expect places .dot _).bind fun _ _ _ => (twins_expect places .identifier _).bind fun _ _ name => ?_
    exact .pure (.super keyword name)
  apply (twins_accept places .leftParen).bind
  rintro _ _ (_ | _)
  · refine rules.assignment.bind fun inner inner' part => (twins_expect places .rightParen _).bind fun _ _ _ => ?_
    exact .pure (.grouping part)
  · exact twins_refuse _ _

theorem twinRules (room : Nat) : TwinRules Moves room := by
  induction room with
  | zero => constructor <;> intros <;> exact twins_tooDeep _
  | succ room ih =>
    exact ⟨ih.assignment_succ places, ih.tier_succ places, ih.unary_succ places, ih.call_succ places,
      ih.primary_succ places⟩

theorem twins_expression (room : Nat) : Twins Moves (expression room) (expression room) (Expr.Moved Moves) :=
  (twinRules places room).assignment

end Expressions

section Statements

variable (places : Relocates Moves)

include places

theorem twins_printStatement (room : Nat) : Twins Moves (printStatement room) (printStatement room) (Stmt.Moved Moves) :=
  (twins_expression places room).bind fun _ _ part => (twins_expect places .semicolon _).bind fun _ _ _ =>
    .pure (.print part)

theorem twins_expressionStatement (room : Nat) :
    Twins Moves (expressionStatement room) (expressionStatement room) (Stmt.Moved Moves) :=
  (twins_expression places room).bind fun _ _ part => (twins_expect places .semicolon _).bind fun _ _ _ =>
    .pure (.expression part)

/-- An expression that is left out where a token of some kind stands, up to such a token. -/
theorem twins_forClause (room : Nat) (close : TokenKind) (what : String) :
    Twins Moves (forClause room close what) (forClause room close what) (Option.Rel (Expr.Moved Moves)) := by
  have ends (clause clause' : Option (Expr Unit)) (out : Option.Rel (Expr.Moved Moves) clause clause') :
      Twins Moves (do let _ ← expect close what; return clause) (do let _ ← expect close what; return clause')
        (Option.Rel (Expr.Moved Moves)) :=
    (twins_expect places close what).bind fun _ _ _ => .pure out
  apply (twins_sees places close).bind
  rintro missing _ rfl
  cases missing
  · exact ((twins_expression places room).map fun _ _ part => .some part).bind ends
  · exact ends none none .none

theorem twins_returnStatement (room : Nat) {keyword keyword' : Token} (token : Moves keyword keyword') :
    Twins Moves (returnStatement room keyword) (returnStatement room keyword') (Stmt.Moved Moves) := by
  have ends (value value' : Option (Expr Unit)) (out : Option.Rel (Expr.Moved Moves) value value') :
      Twins Moves (do let _ ← expect .semicolon "';' after return value"; return Stmt.returnStmt keyword value)
        (do let _ ← expect .semicolon "';' after return value"; return Stmt.returnStmt keyword' value')
        (Stmt.Moved Moves) :=
    (twins_expect places .semicolon _).bind fun _ _ _ => .pure (.returnStmt token out)
  apply (twins_sees places .semicolon).bind
  rintro missing _ rfl
  cases missing
  · exact ((twins_expression places room).map fun _ _ part => .some part).bind ends
  · exact ends none none .none

theorem twins_varDeclaration (room : Nat) :
    Twins Moves (varDeclaration room) (varDeclaration room) (Stmt.Moved Moves) := by
  refine (twins_expect places .identifier _).bind fun name name' token => ?_
  have ends (initial initial' : Option (Expr Unit)) (out : Option.Rel (Expr.Moved Moves) initial initial') :
      Twins Moves (do let _ ← expect .semicolon "';' after variable declaration"; return Stmt.varDecl name initial)
        (do let _ ← expect .semicolon "';' after variable declaration"; return Stmt.varDecl name' initial')
        (Stmt.Moved Moves) :=
    (twins_expect places .semicolon _).bind fun _ _ _ => .pure (.varDecl token out)
  apply (twins_accept places .equal).bind
  rintro _ _ (_ | _)
  · exact ((twins_expression places room).map fun _ _ part => .some part).bind ends
  · exact ends none none .none

theorem twins_forInitial (room : Nat) :
    Twins Moves (forInitial room) (forInitial room) (Option.Rel (Stmt.Moved Moves)) := by
  apply (twins_accept places .semicolon).bind
  rintro _ _ (_ | _)
  · exact .pure .none
  apply (twins_accept places .varWord).bind
  rintro _ _ (_ | _)
  · exact (twins_varDeclaration places room).bind fun _ _ part => .pure (.some part)
  · exact (twins_expressionStatement places room).bind fun _ _ part => .pure (.some part)

theorem twins_condition (room : Nat) (before after : String) :
    Twins Moves (condition room before after) (condition room before after) (Expr.Moved Moves) :=
  (twins_expect places .leftParen before).bind fun _ _ _ => (twins_expression places room).bind fun _ _ part =>
    (twins_expect places .rightParen after).bind fun _ _ _ => .pure part

/-- The rules for statements and declarations, each with the same room. -/
structure TwinStatements (Moves : Token → Token → Prop) (room : Nat) : Prop where
  declaration : Twins Moves (declaration room) (declaration room) (Option.Rel (Stmt.Moved Moves))
  classDeclaration : Twins Moves (classDeclaration room) (classDeclaration room) (Stmt.Moved Moves)
  function : ∀ sort, Twins Moves (function room sort) (function room sort) (FunctionDecl.Moved Moves)
  block : Twins Moves (block room) (block room) (List.Forall₂ (Stmt.Moved Moves))
  statement : Twins Moves (statement room) (statement room) (Stmt.Moved Moves)

variable {room : Nat}

theorem TwinStatements.declaration_succ (rules : TwinStatements Moves room) :
    Twins Moves (Parse.declaration (room + 1)) (Parse.declaration (room + 1)) (Option.Rel (Stmt.Moved Moves)) := by
  unfold Parse.declaration
  apply twins_recovering places
  apply (twins_accept places .classWord).bind
  rintro _ _ (_ | _)
  · exact rules.classDeclaration
  apply (twins_accept places .funWord).bind
  rintro _ _ (_ | _)
  · exact (rules.function .function).bind fun _ _ part => .pure (.funDecl part)
  apply (twins_accept places .varWord).bind
  rintro _ _ (_ | _)
  · exact twins_varDeclaration places room
  · exact rules.statement

theorem TwinStatements.classDeclaration_succ (rules : TwinStatements Moves room) :
    Twins Moves (Parse.classDeclaration (room + 1)) (Parse.classDeclaration (room + 1)) (Stmt.Moved Moves) := by
  unfold Parse.classDeclaration
  refine (twins_expect places .identifier _).bind fun name name' token => ?_
  have ends (superclass superclass' : Option Token) (out : Option.Rel Moves superclass superclass') :
      Twins Moves
        (do
          let _ ← expect .leftBrace "'\x7b' before class body"
          let methods ← untilBrace (some <$> Parse.function room .method)
          let _ ← expect .rightBrace "'\x7d' after class body"
          return Stmt.classDecl name (superclass.map (·, ())) methods)
        (do
          let _ ← expect .leftBrace "'\x7b' before class body"
          let methods ← untilBrace (some <$> Parse.function room .method)
          let _ ← expect .rightBrace "'\x7d' after class body"
          return Stmt.classDecl name' (superclass'.map (·, ())) methods)
        (Stmt.Moved Moves) := by
    have parent : MovedSuperclass Moves (superclass.map (·, ())) (superclass'.map (·, ())) := by
      cases out with
      | some token => exact .some token
      | none => exact .none
    refine (twins_expect places .leftBrace _).bind fun _ _ _ => ?_
    refine (twins_untilBrace places ((rules.function .method).map fun _ _ part => .some part)).bind fun _ _ parts => ?_
    exact (twins_expect places .rightBrace _).bind fun _ _ _ => .pure (.classDecl token parent parts)
  apply (twins_accept places .less).bind
  rintro _ _ (_ | _)
  · exact ((twins_expect places .identifier _).map fun _ _ token => .some token).bind ends
  · exact ends none none .none

theorem TwinStatements.function_succ (rules : TwinStatements Moves room) (sort : FunctionSort) :
    Twins Moves (Parse.function (room + 1) sort) (Parse.function (room + 1) sort) (FunctionDecl.Moved Moves) := by
  unfold Parse.function
  refine (twins_expect places .identifier _).bind fun name name' token => ?_
  refine (twins_expect places .leftParen _).bind fun _ _ _ => ?_
  refine (twins_parenthesized places (twins_expect places .identifier _) _ _).bind ?_
  rintro ⟨params, _⟩ ⟨params', _⟩ ⟨tokens, _⟩
  refine (twins_expect places .leftBrace _).bind fun _ _ _ => ?_
  exact rules.block.bind fun _ _ parts => .pure (.mk token tokens parts)

theorem TwinStatements.block_succ (rules : TwinStatements Moves room) :
    Twins Moves (Parse.block (room + 1)) (Parse.block (room + 1)) (List.Forall₂ (Stmt.Moved Moves)) := by
  unfold Parse.block
  refine (twins_untilBrace places rules.declaration).bind fun _ _ parts => ?_
  exact (twins_expect places .rightBrace _).bind fun _ _ _ => .pure parts

theorem TwinStatements.statement_succ (rules : TwinStatements Moves room) :
    Twins Moves (Parse.statement (room + 1)) (Parse.statement (room + 1)) (Stmt.Moved Moves) := by
  unfold Parse.statement
  apply (twins_accept places .forWord).bind
  rintro _ _ (_ | _)
  · refine (twins_expect places .leftParen _).bind fun _ _ _ => (twins_forInitial places room).bind fun _ _ start => ?_
    refine (twins_forClause places room _ _).bind fun _ _ test => (twins_forClause places room _ _).bind fun _ _ step => ?_
    exact rules.statement.bind fun _ _ inside => .pure (Stmt.moved_forLoop start test step inside)
  apply (twins_accept places .ifWord).bind
  rintro _ _ (_ | _)
  · refine (twins_condition places room _ _).bind fun _ _ test => rules.statement.bind fun _ _ first => ?_
    apply (twins_accept places .elseWord).bind
    rintro _ _ (_ | _)
    · exact rules.statement.bind fun _ _ second => .pure (.ifElse test first second)
    · exact .pure (.ifThen test first)
  apply (twins_accept places .printWord).bind
  rintro _ _ (_ | _)
  · exact twins_printStatement places room
  apply (twins_accept places .returnWord).bind
  rintro _ _ (token | _)
  · exact twins_returnStatement places room token
  apply (twins_accept places .whileWord).bind
  rintro _ _ (_ | _)
  · refine (twins_condition places room _ _).bind fun _ _ test => rules.statement.bind fun _ _ part => ?_
    exact .pure (.whileLoop test part)
  apply (twins_accept places .leftBrace).bind
  rintro _ _ (_ | _)
  · exact rules.block.bind fun _ _ parts => .pure (.block parts)
  · exact twins_expressionStatement places room

theorem twinStatements (room : Nat) : TwinStatements Moves room := by
  induction room with
  | zero => constructor <;> intros <;> exact twins_tooDeep _
  | succ room ih =>
    exact ⟨ih.declaration_succ places, ih.classDeclaration_succ places, ih.function_succ places, ih.block_succ places,
      ih.statement_succ places⟩

theorem twins_program (room : Nat) : Twins Moves (program room) (program room) (List.Forall₂ (Stmt.Moved Moves)) :=
  twins_collect twins_atEnd (twinStatements places room).declaration

end Statements

end Parse

/-- What is read of two token lists. -/
structure Parsed.Moved (Moves : Token → Token → Prop) (parsed parsed' : Parsed) : Prop where
  program : List.Forall₂ (Stmt.Moved Moves) parsed.program parsed'.program
  faults : List.Forall₂ (Located.Moved Moves) parsed.faults parsed'.faults

/-- The same is read wherever the tokens stand. -/
theorem Parsed.moved_within? {Moves : Token → Token → Prop}
    (places : Relocates Moves) (room : Nat) {tokens tokens' : List Token}
    {finish finish' : Token} (moved : List.Forall₂ Moves tokens tokens') (mark : Moves finish finish') :
    Option.Rel (Parsed.Moved Moves) (within? room tokens finish) (within? room tokens' finish') := by
  have starts : Reader.Moved Moves ⟨tokens, finish, #[]⟩ ⟨tokens', finish', #[]⟩ := ⟨moved, mark, .nil⟩
  have ends := Parse.twins_program places room starts
  unfold within?
  generalize Parse.program room ⟨tokens, finish, #[]⟩ = outcome at ends
  generalize Parse.program room ⟨tokens', finish', #[]⟩ = outcome' at ends
  cases ends with
  | ok out moved => exact .some ⟨out, moved.faults⟩
  | error stop moved => exact .none

end Lox
