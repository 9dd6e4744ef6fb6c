import Lox.Proofs.Grammar.Soundness.Expressions
import Lox.Proofs.Grammar.Taking

/-!
Every expression of the grammar is read, and as the tree of its derivation, if what follows it cannot
continue it. What can continue an expression is a matter of one token: each sign binds what stands before
it on one tier, and an operand ends before a sign of a looser tier.
-/
namespace Lox.Parse

open Grammar

/-- How tightly a token binds the expression before it; zero if it does not. -/
def grip : TokenKind → Nat
  | .orWord => 1
  | .andWord => 2
  | .bangEqual | .equalEqual => 3
  | .greater | .greaterEqual | .less | .lessEqual => 4
  | .minus | .plus => 5
  | .slash | .star => 6
  | .leftParen | .dot => 7
  | _ => 0

/-- The grip of the signs of a tier. -/
def tierGrip : Tier → Nat
  | .or => 1
  | .and => 2
  | .equality => 3
  | .comparison => 4
  | .term => 5
  | .factor => 6

/-- What follows does not bind as tightly as that. -/
def Looser (bound : Nat) (rest : List Token) : Prop := ∀ kind, headKind rest = some kind → grip kind < bound

/-- What follows does not continue an expression at all. -/
def Closed (rest : List Token) : Prop := Looser 1 rest ∧ headKind rest ≠ some .equal

theorem Looser.mono {fewer more : Nat} {rest : List Token} (looser : Looser fewer rest) (fits : fewer ≤ more) :
    Looser more rest := fun kind head => Nat.lt_of_lt_of_le (looser kind head) fits

theorem looser_cons {bound : Nat} {token : Token} {rest : List Token} (weak : grip token.kind < bound) :
    Looser bound (token :: rest) := by
  intro kind head
  rw [headKind_cons, Option.some.injEq] at head
  exact head ▸ weak

/-- Tokens that do not continue an expression. -/
def closes (kind : TokenKind) : Bool := grip kind = 0 && kind != .equal

theorem closed_of_closes {rest : List Token} {kind : TokenKind} (head : headKind rest = some kind)
    (closing : closes kind = true) : Closed rest := by
  simp only [closes, Bool.and_eq_true, decide_eq_true_eq, bne_iff_ne] at closing
  refine ⟨fun other same => ?_, by simpa [head] using closing.2⟩
  rw [head, Option.some.injEq] at same
  rw [← same, closing.1]
  exact Nat.one_pos

theorem closed_cons {token : Token} {rest : List Token} {kind : TokenKind} (same : token.kind = kind)
    (closing : closes kind = true) : Closed (token :: rest) :=
  closed_of_closes (by rw [headKind_cons, same]) closing

theorem joiner?_eq_some {level : Tier} {kind : TokenKind} {joiner : Joiner}
    (operator : Operator level kind joiner) : level.joiner? kind = some joiner := by
  cases operator <;> rfl

theorem grip_of_operator {level : Tier} {kind : TokenKind} {joiner : Joiner}
    (operator : Operator level kind joiner) : grip kind = tierGrip level := by
  cases operator <;> rfl

/-- No sign of a tier is found where what follows binds looser. -/
theorem joiner?_eq_none {level : Tier} {kind : TokenKind} (weak : grip kind < tierGrip level) :
    level.joiner? kind = none := by
  cases found : level.joiner? kind with
  | none => rfl
  | some joiner =>
    have same := grip_of_operator (operator_of_joiner? found)
    omega

theorem grip_of_above {level next : Tier} (above : Above level next) : tierGrip next = tierGrip level + 1 := by
  cases above <;> rfl

/-- Before each further sign of a chain an operand ends. -/
theorem Chain.looser {Operand : Tier → List Token → Expr Unit → Prop} {level : Tier} {left result : Expr Unit}
    {tokens rest : List Token} (chain : Chain Operand left level tokens result)
    (looser : Looser (tierGrip level) rest) : Looser (tierGrip level + 1) (tokens ++ rest) := by
  cases chain with
  | done => exact looser.mono (Nat.le_succ _)
  | more operator =>
    apply looser_cons
    rw [grip_of_operator operator]
    exact Nat.lt_succ_self _

/-- A call expression is an operation of every tier. -/
theorem operation_of_call {tokens : List Token} {expr : Expr Unit} (call : Call tokens expr) (level : Tier) :
    Operation level tokens expr := by
  induction level using above_induction with
  | step level ih =>
    rw [← List.append_nil tokens]
    refine .chain ?_ .done
    cases level with
    | factor => exact .unary (.call call)
    | term => exact .tighter .term (ih _ .term)
    | comparison => exact .tighter .comparison (ih _ .comparison)
    | equality => exact .tighter .equality (ih _ .equality)
    | and => exact .tighter .and (ih _ .and)
    | or => exact .tighter .or (ih _ .or)

/-- The tokens that an expression can start with. -/
def startsExpression : TokenKind → Bool
  | .falseWord | .trueWord | .nilWord | .number | .string | .thisWord | .identifier | .leftParen
  | .superWord | .bang | .minus => true
  | _ => false

/-- Tokens of which the first one is of the given kinds. -/
def Starts (kinds : TokenKind → Bool) (tokens : List Token) : Prop :=
  ∃ first rest, tokens = first :: rest ∧ kinds first.kind = true

theorem Starts.append {kinds : TokenKind → Bool} {tokens : List Token} (starts : Starts kinds tokens)
    (rest : List Token) : Starts kinds (tokens ++ rest) := by
  obtain ⟨first, others, rfl, kind⟩ := starts
  exact ⟨first, others ++ rest, rfl, kind⟩

theorem Starts.ne_nil {kinds : TokenKind → Bool} {tokens : List Token} (starts : Starts kinds tokens) :
    tokens ≠ [] := by
  obtain ⟨first, others, rfl, _⟩ := starts
  exact List.cons_ne_nil _ _

theorem Starts.weaken {fewer more : TokenKind → Bool} {tokens : List Token} (starts : Starts fewer tokens)
    (fits : ∀ kind, fewer kind = true → more kind = true) : Starts more tokens := by
  obtain ⟨first, others, rfl, kind⟩ := starts
  exact ⟨first, others, rfl, fits _ kind⟩

/-- The first token is of none of the other kinds. -/
theorem Starts.headKind_ne {kinds : TokenKind → Bool} {tokens : List Token} {kind : TokenKind}
    (starts : Starts kinds tokens) (rest : List Token) (other : kinds kind = false) :
    headKind (tokens ++ rest) ≠ some kind := by
  obtain ⟨first, others, rfl, starting⟩ := starts
  intro same
  rw [List.cons_append, headKind_cons, Option.some.injEq] at same
  rw [same, other] at starting
  cases starting

theorem Primary.starts {tokens : List Token} {expr : Expr Unit} (primary : Primary tokens expr) :
    Starts startsExpression tokens := by
  cases primary <;> refine ⟨_, _, rfl, ?_⟩ <;> simp_all [startsExpression]

theorem Call.starts {tokens : List Token} {expr : Expr Unit} (call : Call tokens expr) :
    Starts startsExpression tokens := by
  obtain ⟨primary, _⟩ := call
  exact (Primary.starts primary).append _

theorem Unary.starts {tokens : List Token} {expr : Expr Unit} (unary : Unary tokens expr) :
    Starts startsExpression tokens := by
  cases unary with
  | @operator sign _ _ _ operator =>
    refine ⟨_, _, rfl, ?_⟩
    generalize sign.kind = kind at operator
    cases operator <;> rfl
  | call call => exact Call.starts call

theorem Operation.starts {level : Tier} {tokens : List Token} {expr : Expr Unit}
    (operation : Operation level tokens expr) : Starts startsExpression tokens := by
  induction level using above_induction generalizing tokens expr with
  | step level ih =>
    obtain ⟨operand, _⟩ := operation
    refine Starts.append ?_ _
    cases operand with
    | tighter above operation => exact ih _ above operation
    | unary unary => exact Unary.starts unary

theorem Assignment.starts {tokens : List Token} {expr : Expr Unit} (assignment : Assignment tokens expr) :
    Starts startsExpression tokens := by
  cases assignment with
  | name named => exact ⟨_, _, rfl, by rw [named]; rfl⟩
  | property call => exact (Call.starts call).append _
  | operation operation => exact Operation.starts operation

theorem ofKind?_eq_some {kind : TokenKind} {op : UnaryOp} (sign : Sign kind op) :
    UnaryOp.ofKind? kind = some op := by
  cases sign <;> rfl

/-- No call expression starts with a unary operator. -/
theorem Call.unsigned {tokens rest : List Token} {expr : Expr Unit} {kind : TokenKind} (call : Call tokens expr)
    (head : headKind (tokens ++ rest) = some kind) : UnaryOp.ofKind? kind = none := by
  obtain ⟨primary, _⟩ := call
  cases primary <;> simp_all <;> subst head <;> rfl

/-- What the rules for expressions take with some room. -/
structure TakesExpressions (room : Nat) : Prop where
  assignment {tokens : List Token} {expr : Expr Unit} (derived : Assignment tokens expr) :
    Takes (assignment room) Closed tokens expr
  tier {level : Tier} {tokens : List Token} {expr : Expr Unit} (derived : Operation level tokens expr) :
    Takes (tier room level) (Looser (tierGrip level)) tokens expr
  unary {tokens : List Token} {expr : Expr Unit} (derived : Unary tokens expr) :
    Takes (unary room) (Looser 7) tokens expr
  call {tokens : List Token} {expr : Expr Unit} (derived : Call tokens expr) :
    Takes (call room) (Looser 7) tokens expr
  primary {tokens : List Token} {expr : Expr Unit} (derived : Primary tokens expr) :
    Takes (primary room) (fun _ => True) tokens expr

section Rules

variable {room : Nat} {tokens : List Token} {expr : Expr Unit}

/-- An assignment is read as an operation up to the equals sign, and the target is what that gives. -/
theorem takes_target {target value : Expr Unit} {equals : Token} {rest : List Token}
    (ih : TakesExpressions room) (left : Operation .or tokens target) (sign : equals.kind = .equal)
    (right : Assignment rest value) (assigned : target.assignment? value = some expr) :
    Takes (assignment (room + 1)) Closed (tokens ++ equals :: rest) expr := by
  unfold assignment
  refine Takes.bind (ih.tier left) (takes_found sign (Takes.last (ih.assignment right) ?_)) fun _ _ => ?_
  · simp only [assigned]
    exact Takes.pure _
  · exact looser_cons (by rw [sign]; decide)

theorem takes_assignment (ih : TakesExpressions room) (derived : Assignment tokens expr) :
    Takes (assignment (room + 1)) Closed tokens expr := by
  cases derived with
  | @name name _ _ _ named sign right =>
    have read : Call [name] (.read name ()) := .suffixed (.name named) .done
    exact takes_target ih (operation_of_call read .or) sign right rfl
  | @property tokens rest dot name equals _ _ left point named sign right =>
    obtain ⟨primary, suffixes⟩ := left
    have property := Call.suffixed primary (suffixes.trans (.get point named .done))
    have takes := takes_target ih (operation_of_call property .or) sign right rfl
    simpa only [List.append_assoc, List.cons_append, List.nil_append] using takes
  | operation operation =>
    unfold assignment
    refine Takes.last ((ih.tier operation).weaken fun rest closed => closed.1) ?_
    exact takes_other (fun rest closed => closed.2) (Takes.pure _)

private theorem takes_operand (ih : TakesExpressions room) {level : Tier} (derived : Operand level tokens expr) :
    Takes (match level.tighter? with
      | some next => tier room next
      | none => unary room) (Looser (tierGrip level + 1)) tokens expr := by
  cases derived with
  | tighter above operation =>
    have takes := ih.tier operation
    rw [grip_of_above above] at takes
    cases above <;> exact takes
  | unary derived => exact ih.unary derived

theorem takes_tier (ih : TakesExpressions room) {level : Tier} (derived : Operation level tokens expr) :
    Takes (tier (room + 1) level) (Looser (tierGrip level)) tokens expr := by
  obtain ⟨operand, chain⟩ := derived
  unfold tier
  dsimp only
  refine Takes.bind (takes_operand ih operand) (Loops.takes ?_) fun rest looser => Chain.looser chain looser
  clear operand
  induction chain with
  | done =>
    refine .inl (LoopsAll.done ?_)
    rintro (_ | ⟨token, rest⟩) finish faults looser
    · rfl
    · have none := joiner?_eq_none (looser token.kind rfl)
      simp [Bind.bind, EStateM.bind, acceptWhere, none, Pure.pure, EStateM.pure]
  | @more level _ _ _ sign joiner taken rest operator operand tail ih' =>
    rw [← List.cons_append]
    refine Loops.more _ ?_ (List.cons_ne_nil _ _) ih' fun rest looser => Chain.looser tail looser
    refine takes_selected (joiner?_eq_some operator) ?_
    exact Takes.last (takes_operand ih operand) (Takes.pure _)

theorem takes_unary (ih : TakesExpressions room) (derived : Unary tokens expr) :
    Takes (unary (room + 1)) (Looser 7) tokens expr := by
  unfold unary
  cases derived with
  | operator operator right =>
    refine takes_selected (ofKind?_eq_some operator) ?_
    exact Takes.last (ih.unary right) (Takes.pure _)
  | call derived =>
    refine takes_unselected (fun rest kind _ head => ?_) (ih.call derived)
    exact Call.unsigned derived head

theorem takes_call (ih : TakesExpressions room) (derived : Call tokens expr) :
    Takes (call (room + 1)) (Looser 7) tokens expr := by
  obtain ⟨primary, suffixes⟩ := derived
  unfold call
  refine Takes.bind (ih.primary primary) (Loops.takes ?_) fun _ _ => trivial
  clear primary
  induction suffixes with
  | done =>
    refine .inl (LoopsAll.done ?_)
    intro rest finish faults looser
    have paren : headKind rest ≠ some .leftParen := fun same => absurd (looser _ same) (by decide)
    have dot : headKind rest ≠ some .dot := fun same => absurd (looser _ same) (by decide)
    simp [Bind.bind, EStateM.bind, accept_other paren, accept_other dot, Pure.pure, EStateM.pure]
  | @call object result opening closing taken rest arguments opens listing closes tail ih' =>
    have split : opening :: (taken ++ closing :: rest) = (opening :: (taken ++ [closing])) ++ rest := by simp
    rw [split]
    refine Loops.more (fun _ => True) ?_ (List.cons_ne_nil _ _) ih' fun _ _ => trivial
    apply takes_found opens
    refine Takes.last (takes_parenthesized (fun _ _ derived => ih.assignment derived) ?_ ?_ listing closes)
      (Takes.pure _)
    · exact fun taken value rest derived => (Assignment.starts derived).headKind_ne rest rfl
    · rintro rest (comma | paren)
      · exact closed_of_closes comma rfl
      · exact closed_of_closes paren rfl
  | @get object result dot name rest sign named tail ih' =>
    have split : dot :: name :: rest = [dot, name] ++ rest := rfl
    rw [split]
    refine Loops.more (fun _ => True) ?_ (List.cons_ne_nil _ _) ih' fun _ _ => trivial
    refine takes_other (fun rest _ => by simp [sign]) ?_
    exact takes_found sign (takes_expect named (Takes.pure _))

theorem takes_atom {token : Token} {Follow : List Token → Prop} {next : Option (Expr Unit) → Parse (Expr Unit)}
    {result : Expr Unit} (found : Expr.ofToken? token = some expr)
    (continues : Takes (next (some expr)) Follow tokens result) :
    Takes (atom >>= next) Follow (token :: tokens) result := by
  refine Takes.of_eq (fun rest finish faults _ => ?_) continues
  simp [Bind.bind, EStateM.bind, atom, found]

theorem takes_noAtom {token : Token} {Follow : List Token → Prop}
    {next : Option (Expr Unit) → Parse (Expr Unit)} {result : Expr Unit} (absent : Expr.ofToken? token = none)
    (continues : Takes (next none) Follow (token :: tokens) result) :
    Takes (atom >>= next) Follow (token :: tokens) result := by
  refine Takes.of_eq (fun rest finish faults _ => ?_) continues
  simp [Bind.bind, EStateM.bind, atom, absent]

theorem takes_primary (ih : TakesExpressions room) (derived : Primary tokens expr) :
    Takes (primary (room + 1)) (fun _ => True) tokens expr := by
  have alone (token : Token) (found : Expr.ofToken? token = some expr) :
      Takes (primary (room + 1)) (fun _ => True) [token] expr := by
    unfold primary
    exact takes_atom found (Takes.pure _)
  cases derived with
  | falseWord kind => exact alone _ (by simp [Expr.ofToken?, kind])
  | trueWord kind => exact alone _ (by simp [Expr.ofToken?, kind])
  | nilWord kind => exact alone _ (by simp [Expr.ofToken?, kind])
  | number kind => exact alone _ (by simp [Expr.ofToken?, kind])
  | string kind => exact alone _ (by simp [Expr.ofToken?, kind])
  | this kind => exact alone _ (by simp [Expr.ofToken?, kind])
  | name kind => exact alone _ (by simp [Expr.ofToken?, kind])
  | group opens inside closes =>
    unfold primary
    apply takes_noAtom (by simp [Expr.ofToken?, opens])
    refine takes_other (fun rest _ => by simp [opens]) (takes_found opens ?_)
    refine Takes.bind (ih.assignment inside) (takes_expect closes (Takes.pure _)) fun rest _ => ?_
    exact closed_cons closes rfl
  | super kind point named =>
    unfold primary
    refine takes_noAtom (by simp [Expr.ofToken?, kind]) (takes_found kind ?_)
    exact takes_expect point (takes_expect named (Takes.pure _))

end Rules

theorem takesExpressions (room : Nat) : TakesExpressions room := by
  induction room with
  | zero => exact ⟨fun _ => Takes.tooDeep, fun _ => Takes.tooDeep, fun _ => Takes.tooDeep, fun _ => Takes.tooDeep,
      fun _ => Takes.tooDeep⟩
  | succ room ih =>
    exact ⟨takes_assignment ih, takes_tier ih, takes_unary ih, takes_call ih, takes_primary ih⟩

/-- An expression of the grammar is read up to a token that does not continue it. -/
theorem takes_expression (room : Nat) {tokens : List Token} {expr : Expr Unit}
    (derived : Assignment tokens expr) : Takes (expression room) Closed tokens expr :=
  (takesExpressions room).assignment derived

end Lox.Parse
