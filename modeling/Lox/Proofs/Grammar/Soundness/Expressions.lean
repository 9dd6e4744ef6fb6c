import Lox.Proofs.Grammar.Lists

/-!
Whatever is read without a fault has a derivation in the grammar, with the tree that was read: every token
taken stands in one place of the derivation. On the way it is shown that rules take at least one token, and
how much room for nesting they need for the tokens at hand.
-/
namespace Lox

namespace Grammar

variable {tokens : List Token}

/-- The operators that reading looks for are those of the grammar. -/
theorem operator_of_joiner? {level : Tier} {kind : TokenKind} {joiner : Joiner}
    (found : level.joiner? kind = some joiner) : Operator level kind joiner := by
  unfold Tier.joiner? at found
  split at found <;> cases found <;> constructor

theorem sign_of_ofKind? {kind : TokenKind} {op : UnaryOp} (found : UnaryOp.ofKind? kind = some op) :
    Sign kind op := by
  unfold UnaryOp.ofKind? at found
  split at found <;> cases found <;> constructor

theorem above_of_tighter? {level next : Tier} (found : level.tighter? = some next) : Above level next := by
  cases level <;> cases found <;> constructor

/-- A chain builds an operation, or nothing was added. -/
theorem Chain.trivial_or_joined {Operand : Tier → List Token → Expr Unit → Prop} {level : Tier}
    {left result : Expr Unit} (chain : Chain Operand left level tokens result) :
    (tokens = [] ∧ result = left) ∨ ∃ joiner first sign second, result = Joiner.join joiner first sign second := by
  induction chain with
  | done => exact .inl ⟨rfl, rfl⟩
  | more _ _ _ ih =>
    rcases ih with ⟨_, same⟩ | joined
    · exact .inr ⟨_, _, _, _, same⟩
    · exact .inr joined

/-- Expressions that are no operations of any tier, and no unary ones. -/
def Target : Expr Unit → Prop
  | .read _ _ | .get _ _ => True
  | _ => False

theorem not_target_join (joiner : Joiner) (left : Expr Unit) (sign : Token) (right : Expr Unit) :
    ¬ Target (joiner.join left sign right) := by
  cases joiner <;> exact id

theorem Chain.trivial_of_target {Operand : Tier → List Token → Expr Unit → Prop} {level : Tier}
    {left result : Expr Unit} (chain : Chain Operand left level tokens result) (target : Target result) :
    tokens = [] ∧ result = left := by
  rcases chain.trivial_or_joined with same | ⟨joiner, first, sign, second, rfl⟩
  · exact same
  · exact absurd target (not_target_join _ _ _ _)

theorem Unary.call_of_target {expr : Expr Unit} (unary : Unary tokens expr) (target : Target expr) :
    Call tokens expr := by
  cases unary with
  | operator => exact absurd target id
  | call call => exact call

/-- Induction over the tiers, tightest first. -/
theorem above_induction {P : Tier → Prop} (step : ∀ level, (∀ next, Above level next → P next) → P level)
    (level : Tier) : P level := by
  have factor : P .factor := step _ fun _ above => by cases above
  have term : P .term := step _ fun _ above => by cases above; exact factor
  have comparison : P .comparison := step _ fun _ above => by cases above; exact term
  have equality : P .equality := step _ fun _ above => by cases above; exact comparison
  have and : P .and := step _ fun _ above => by cases above; exact equality
  have or : P .or := step _ fun _ above => by cases above; exact and
  cases level <;> assumption

/-- What can be assigned to is a call expression, however many tiers it is read through. -/
theorem Operation.call_of_target {level : Tier} {expr : Expr Unit} (operation : Operation level tokens expr)
    (target : Target expr) : Call tokens expr := by
  induction level using above_induction generalizing tokens with
  | step level ih =>
    obtain ⟨operand, chain⟩ := operation
    obtain ⟨rfl, rfl⟩ := chain.trivial_of_target target
    rw [List.append_nil]
    cases operand with
    | tighter above operation => exact ih _ above operation
    | unary unary => exact unary.call_of_target target

theorem Suffixes.trivial_of_read {Argument : List Token → Expr Unit → Prop} {object result : Expr Unit}
    {name : Token} (suffixes : Suffixes Argument object tokens result) (read : result = .read name ()) :
    tokens = [] ∧ object = .read name () := by
  induction suffixes with
  | done => exact ⟨rfl, read⟩
  | call _ _ _ _ ih => cases (ih read).2
  | get _ _ _ ih => cases (ih read).2

/-- The last suffix of a property access is the property. -/
theorem Suffixes.last_of_get {Argument : List Token → Expr Unit → Prop} {object result inner : Expr Unit}
    {name : Token} (suffixes : Suffixes Argument object tokens result) (get : result = .get inner name) :
    (tokens = [] ∧ object = .get inner name) ∨ ∃ before dot, tokens = before ++ [dot, name] ∧
      dot.kind = .dot ∧ name.kind = .identifier ∧ Suffixes Argument object before inner := by
  induction suffixes with
  | done => exact .inl ⟨rfl, get⟩
  | call opens listing closes _ ih =>
    rcases ih get with ⟨_, same⟩ | ⟨before, dot, rfl, sign, named, rest⟩
    · cases same
    · exact .inr ⟨_, dot, by simp, sign, named, .call opens listing closes rest⟩
  | get sign named _ ih =>
    rcases ih get with ⟨rfl, same⟩ | ⟨before, dot, rfl, sign', named', rest⟩
    · cases same
      exact .inr ⟨[], _, rfl, sign, named, .done⟩
    · exact .inr ⟨_, dot, by simp, sign', named', .get sign named rest⟩

theorem Call.name_of_read {name : Token} (call : Call tokens (.read name ())) :
    tokens = [name] ∧ name.kind = .identifier := by
  obtain ⟨primary, suffixes⟩ := call
  obtain ⟨rfl, rfl⟩ := suffixes.trivial_of_read rfl
  cases primary with
  | name kind => exact ⟨rfl, kind⟩

theorem Call.object_of_get {object : Expr Unit} {name : Token} (call : Call tokens (.get object name)) :
    ∃ before dot, tokens = before ++ [dot, name] ∧ dot.kind = .dot ∧ name.kind = .identifier ∧
      Call before object := by
  obtain ⟨primary, suffixes⟩ := call
  rcases suffixes.last_of_get rfl with ⟨_, rfl⟩ | ⟨before, dot, rfl, sign, named, rest⟩
  · cases primary
  · exact ⟨_, dot, by simp, sign, named, .suffixed primary rest⟩

/-- An assignment is read as an operation first; if that is a target at all, the grammar has a rule for
the whole. -/
theorem Assignment.of_target {rest : List Token} {equals : Token} {target value expr : Expr Unit}
    (operation : Operation .or tokens target) (sign : equals.kind = .equal) (right : Assignment rest value)
    (assigned : target.assignment? value = some expr) : Assignment (tokens ++ equals :: rest) expr := by
  unfold Expr.assignment? at assigned
  split at assigned
  · cases assigned
    obtain ⟨rfl, named⟩ := (operation.call_of_target trivial).name_of_read
    exact .name named sign right
  · cases assigned
    obtain ⟨before, dot, rfl, point, named, call⟩ := (operation.call_of_target trivial).object_of_get
    simpa using Assignment.property call point named sign right
  · cases assigned

end Grammar

namespace Parse

open Grammar

/-- Room that may not do for a number of tokens: each of them can cost a pass through all the rules, of
which `rules` are still to be entered before the next token is taken. -/
def Short (room rules : Nat) : Nat → Prop := fun count => room < rules + 12 * count

theorem short_mono (room rules : Nat) :
    ∀ fewer more, fewer ≤ more → Short room rules fewer → Short room rules more := by
  intro fewer more fits short
  unfold Short at short ⊢
  omega

/-- The number of rules from a tier down to the primary expressions. -/
def rulesBelow : Tier → Nat
  | .or => 9
  | .and => 8
  | .equality => 7
  | .comparison => 6
  | .term => 5
  | .factor => 4

/-- What the rules for expressions read with some room. -/
structure ReadsExpressions (room : Nat) : Prop where
  assignment : Reads (assignment room) (Short room 10) (Covers Assignment)
  tier (level : Tier) : Reads (tier room level) (Short room (rulesBelow level)) (Covers (Operation level))
  unary : Reads (unary room) (Short room 3) (Covers Unary)
  call : Reads (call room) (Short room 2) (Covers Call)
  primary : Reads (primary room) (Short room 1) (Covers Primary)

theorem reads_assignment {room : Nat} (ih : ReadsExpressions room) :
    Reads (assignment (room + 1)) (Short (room + 1) 10) (Covers Assignment) := by
  unfold assignment
  refine Reads.bind ((ih.tier .or).weaken (fun count => ?_) fun _ _ _ _ => id) ?_
  · simp only [Short, rulesBelow]
    omega
  rintro clean tokens target ⟨_, present, derived⟩
  apply Reads.bind (reads_accept .equal)
  rintro _ _ _ ⟨_, rfl, ⟨rfl, rfl, _⟩ | ⟨equals, rfl, rfl, sign⟩⟩
  · refine Reads.pure fun _ _ _ => ⟨by simpa using present, fun isClean => ?_⟩
    simpa using Assignment.operation (derived (by simpa using isClean))
  refine Reads.bind (ih.assignment.weaken (fun count => ?_) fun _ _ _ _ => id) ?_
  · simp only [Short, List.length_singleton]
    omega
  rintro more rest value ⟨_, _, right⟩
  cases assigned : target.assignment? value with
  | some expr =>
    refine Reads.pure fun _ _ _ _ => ⟨by simp, fun isClean => ?_⟩
    simp only [Bool.true_and, Bool.and_true, Bool.and_eq_true] at isClean
    simpa using Assignment.of_target (derived isClean.1) sign (right isClean.2) assigned
  | none =>
    apply Reads.bind (reads_complain equals .invalidTarget)
    rintro _ _ _ ⟨_, rfl, rfl⟩
    exact Reads.pure fun _ _ _ _ _ => ⟨by simp, by simp⟩

theorem reads_operand {room : Nat} (ih : ReadsExpressions room) (level : Tier) :
    Reads (match level.tighter? with
      | some next => tier room next
      | none => unary room) (Short (room + 1) (rulesBelow level)) (Covers (Operand level)) := by
  cases tighter : level.tighter? with
  | none =>
    have last : level = .factor := by cases level <;> cases tighter; rfl
    subst last
    refine ih.unary.weaken (fun count => ?_) fun _ _ _ _ formed => ⟨formed.1, fun isClean => .unary (formed.2 isClean)⟩
    simp only [Short, rulesBelow]
    omega
  | some next =>
    have above := above_of_tighter? tighter
    refine (ih.tier next).weaken (fun count => ?_)
      fun _ _ _ _ formed => ⟨formed.1, fun isClean => .tighter above (formed.2 isClean)⟩
    cases above <;> simp only [Short, rulesBelow] <;> omega

theorem reads_tier {room : Nat} (ih : ReadsExpressions room) (level : Tier) :
    Reads (tier (room + 1) level) (Short (room + 1) (rulesBelow level)) (Covers (Operation level)) := by
  have operand := reads_operand ih level
  unfold tier
  dsimp only
  apply Reads.bind operand
  rintro fine before first ⟨_, present, derived⟩
  refine Reads.repeating
    (fun clean taken left _ => clean = true → Chain Operand first level taken left) _
    (fun _ _ => .done) ?step ?last
  case step =>
    rintro clean taken left ⟨_, chain⟩
    apply Reads.bind (reads_acceptWhere level.joiner?)
    rintro _ _ _ ⟨_, rfl, ⟨rfl, rfl⟩ | ⟨joiner, sign, rfl, rfl, found⟩⟩
    · refine Reads.pure fun _ _ _ => ⟨rfl, fun _ => ⟨by simp [present], fun isClean => ?_⟩⟩
      simp only [Bool.and_true, Bool.and_eq_true] at isClean
      exact .chain (derived isClean.1) (chain isClean.2)
    · refine Reads.bind (operand.weaken (fun count => short_mono _ _ _ _ (by omega)) fun _ _ _ _ => id) ?_
      rintro more tokens right ⟨_, _, last⟩
      refine Reads.pure fun _ _ _ _ => ⟨by simp, fun isClean => ?_⟩
      simp only [Bool.true_and, Bool.and_true, Bool.and_eq_true] at isClean
      simpa using (chain isClean.1).snoc (operator_of_joiner? found) (last isClean.2)
  case last =>
    intro clean taken expr chain _
    refine ⟨by simp [present], fun isClean => ?_⟩
    simp only [Bool.and_eq_true] at isClean
    exact .chain (derived isClean.1) (chain isClean.2)

theorem reads_unary {room : Nat} (ih : ReadsExpressions room) :
    Reads (unary (room + 1)) (Short (room + 1) 3) (Covers Unary) := by
  unfold unary
  apply Reads.bind (reads_acceptWhere UnaryOp.ofKind?)
  rintro _ _ _ ⟨_, rfl, ⟨rfl, rfl⟩ | ⟨op, sign, rfl, rfl, found⟩⟩
  · refine ih.call.weaken (fun count => ?_) fun _ _ _ _ formed _ => ?_
    · simp only [Short, List.length_nil]
      omega
    · exact ⟨by simpa using formed.1, fun isClean => .call (formed.2 (by simpa using isClean))⟩
  · refine Reads.bind (ih.unary.weaken (fun count => ?_) fun _ _ _ _ => id) ?_
    · simp only [Short, List.length_singleton]
      omega
    rintro clean tokens operand ⟨_, _, derived⟩
    refine Reads.pure fun _ _ _ => ⟨by simp, fun isClean => ?_⟩
    simpa using Unary.operator (sign_of_ofKind? found) (derived (by simpa using isClean))

theorem reads_call {room : Nat} (ih : ReadsExpressions room) :
    Reads (call (room + 1)) (Short (room + 1) 2) (Covers Call) := by
  unfold call
  refine Reads.bind (ih.primary.weaken (fun count => ?_) fun _ _ _ _ => id) ?_
  · simp only [Short]
    omega
  rintro fine before callee ⟨_, present, derived⟩
  refine Reads.repeating
    (fun clean taken object _ => clean = true → Suffixes Assignment callee taken object) _
    (fun _ _ => .done) ?step ?last
  case step =>
    rintro clean taken object ⟨_, suffixes⟩
    refine reads_choice (fun opening opens => ?call) (reads_choice (fun dot point => ?get) ?done)
    case call =>
      have argument : Reads (assignment room) (Short (room + 1) 11) (Covers Assignment) :=
        ih.assignment.weaken (fun count => by simp only [Short]; omega) fun _ _ _ _ => id
      refine Reads.bind ((reads_parenthesized .tooManyArguments _ (short_mono _ _) argument).weaken
        (fun count => ?_) fun _ _ _ _ => id) ?_
      · simp only [Short]
        omega
      rintro more tokens ⟨arguments, closing⟩ ⟨_, _, listed⟩
      refine Reads.pure fun _ _ _ => ⟨by simp, fun isClean => ?_⟩
      simp only [Bool.and_true, Bool.and_eq_true] at isClean
      obtain ⟨inner, rfl, closes, listing⟩ := listed isClean.2
      simpa using (suffixes isClean.1).trans (.call opens listing closes .done)
    case get =>
      apply Reads.bind (reads_expect .identifier _)
      rintro _ _ name ⟨_, rfl, rfl, named⟩
      refine Reads.pure fun _ _ _ _ => ⟨by simp, fun isClean => ?_⟩
      simp only [Bool.and_true] at isClean
      simpa using (suffixes isClean).trans (.get point named .done)
    case done =>
      refine Reads.pure fun _ _ _ _ => ⟨rfl, fun _ => ⟨by simp [present], fun isClean => ?_⟩⟩
      simp only [Bool.and_true, Bool.and_eq_true] at isClean
      exact .suffixed (derived isClean.1) (suffixes isClean.2)
  case last =>
    intro clean taken expr suffixes _
    refine ⟨by simp [present], fun isClean => ?_⟩
    simp only [Bool.and_eq_true] at isClean
    exact .suffixed (derived isClean.1) (suffixes isClean.2)

theorem primary_of_ofToken? {token : Token} {expr : Expr Unit} (found : Expr.ofToken? token = some expr) :
    Primary [token] expr := by
  unfold Expr.ofToken? at found
  split at found <;> cases found
  · exact .falseWord ‹_›
  · exact .trueWord ‹_›
  · exact .nilWord ‹_›
  · exact .number ‹_›
  · exact .string ‹_›
  · exact .this ‹_›
  · exact .name ‹_›

theorem reads_atom {Deep : Nat → Prop} : Reads atom Deep fun clean taken value _ => clean = true ∧
    ((value = none ∧ taken = []) ∨
      ∃ token expr, value = some expr ∧ taken = [token] ∧ Expr.ofToken? token = some expr) := by
  intro reader
  obtain ⟨upcoming, finish, faults⟩ := reader
  cases upcoming with
  | nil => exact ⟨true, [], .refl _, rfl, .inl ⟨rfl, rfl⟩⟩
  | cons token rest =>
    cases found : Expr.ofToken? token with
    | none =>
      simp only [atom, found]
      exact ⟨true, [], .refl _, rfl, .inl ⟨rfl, rfl⟩⟩
    | some expr =>
      simp only [atom, found]
      exact ⟨true, [token], ⟨rfl, rfl, rfl⟩, rfl, .inr ⟨token, expr, rfl, rfl, found⟩⟩

theorem reads_primary {room : Nat} (ih : ReadsExpressions room) :
    Reads (primary (room + 1)) (Short (room + 1) 1) (Covers Primary) := by
  unfold primary
  apply Reads.bind reads_atom
  rintro _ _ _ ⟨_, rfl, ⟨rfl, rfl⟩ | ⟨token, expr, rfl, rfl, found⟩⟩
  · refine reads_choice (fun keyword kind => ?super) (reads_choice (fun opening opens => ?group) ?other)
    case super =>
      apply Reads.bind (reads_expect .dot _)
      rintro _ _ dot ⟨_, rfl, rfl, point⟩
      apply Reads.bind (reads_expect .identifier _)
      rintro _ _ method ⟨_, rfl, rfl, named⟩
      exact Reads.pure fun _ _ _ _ => ⟨by simp, fun _ => .super kind point named⟩
    case group =>
      refine Reads.bind (ih.assignment.weaken (fun count => ?_) fun _ _ _ _ => id) ?_
      · simp only [Short, List.length_nil]
        omega
      rintro clean tokens inner ⟨_, _, derived⟩
      apply Reads.bind (reads_expect .rightParen _)
      rintro _ _ closing ⟨_, rfl, rfl, closes⟩
      refine Reads.pure fun _ _ _ _ _ => ⟨by simp, fun isClean => ?_⟩
      simpa using Primary.group opens (derived (by simpa using isClean)) closes
    case other => exact reads_refuse _ _
  · exact Reads.pure fun _ _ => ⟨by simp, fun _ => primary_of_ofToken? found⟩

theorem readsExpressions (room : Nat) : ReadsExpressions room := by
  induction room with
  | zero =>
    have short (rules count : Nat) (positive : 0 < rules) : Short 0 rules count := by
      unfold Short
      omega
    refine ⟨?_, fun level => ?_, ?_, ?_, ?_⟩
    · exact reads_tooDeep _ fun _ => short _ _ (by decide)
    · exact reads_tooDeep _ fun _ => short _ _ (by cases level <;> decide)
    · exact reads_tooDeep _ fun _ => short _ _ (by decide)
    · exact reads_tooDeep _ fun _ => short _ _ (by decide)
    · exact reads_tooDeep _ fun _ => short _ _ (by decide)
  | succ room ih => exact ⟨reads_assignment ih, reads_tier ih, reads_unary ih, reads_call ih, reads_primary ih⟩

/-- An expression that was read without a fault is one of the grammar. -/
theorem reads_expression (room : Nat) : Reads (expression room) (Short room 10) (Covers Assignment) :=
  (readsExpressions room).assignment

end Parse

end Lox
