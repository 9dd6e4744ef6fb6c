import Lox.Proofs.Grammar.Acceptance
import Lox.Proofs.Token.Lexemes
import Mathlib.Data.List.Forall2

/-!
Expressions and their tokens. The tokens of a tree, from left to right, are read as that tree again, provided that
every operand stands on a level that is tight enough for its place; and only such trees are ever read.
-/
namespace Lox

/-- The levels of expressions, loosest first. -/
inductive Level where
  | assignment
  | tier (tier : Tier)
  | unary
  | call
  | primary
  deriving DecidableEq, Repr

namespace Level

/-- How tightly a level binds. -/
def rank : Level → Nat
  | assignment => 0
  | tier .or => 1
  | tier .and => 2
  | tier .equality => 3
  | tier .comparison => 4
  | tier .term => 5
  | tier .factor => 6
  | unary => 7
  | call => 8
  | primary => 9

instance : LE Level := ⟨fun looser tighter => looser.rank ≤ tighter.rank⟩

instance : LT Level := ⟨fun looser tighter => looser.rank < tighter.rank⟩

instance (looser tighter : Level) : Decidable (looser ≤ tighter) :=
  inferInstanceAs (Decidable (looser.rank ≤ tighter.rank))

instance (looser tighter : Level) : Decidable (looser < tighter) :=
  inferInstanceAs (Decidable (looser.rank < tighter.rank))

/-- The level of the operands of a tier. -/
def operand (tier : Tier) : Level :=
  match tier.tighter? with
  | some next => .tier next
  | none => .unary

/-- The next looser level. -/
def looser : Level → Level
  | assignment | tier .or => assignment
  | tier .and => tier .or
  | tier .equality => tier .and
  | tier .comparison => tier .equality
  | tier .term => tier .comparison
  | tier .factor => tier .term
  | unary => tier .factor
  | call => unary
  | primary => call

theorem eq_of_rank_eq {first second : Level} (same : first.rank = second.rank) : first = second := by
  rcases first with _ | (_ | _ | _ | _ | _ | _) | _ | _ | _ <;>
    rcases second with _ | (_ | _ | _ | _ | _ | _) | _ | _ | _ <;> first | rfl | cases same

theorem rank_looser {level : Level} (tight : level ≠ assignment) : level.rank = level.looser.rank + 1 := by
  rcases level with _ | (_ | _ | _ | _ | _ | _) | _ | _ | _ <;> first | rfl | exact absurd rfl tight

/-- What binds tighter than a tier is an operand of it. -/
theorem operand_le_iff {tier : Tier} {level : Level} : operand tier ≤ level ↔ .tier tier < level := by
  cases tier <;> exact Iff.rfl

end Level

/-- The tier of an operator. -/
def BinaryOp.tier : BinaryOp → Tier
  | equal | notEqual => .equality
  | greater | greaterEqual | less | lessEqual => .comparison
  | add | subtract => .term
  | multiply | divide => .factor

def LogicalOp.tier : LogicalOp → Tier
  | or => .or
  | and => .and

namespace Expr

variable {ρ : Type}

/-- The level that an expression stands on. -/
def level : Expr ρ → Level
  | .assign .. | .set .. => .assignment
  | .logical op _ _ _ => .tier op.tier
  | .binary op _ _ _ => .tier op.tier
  | .unary .. => .unary
  | .call .. | .get .. => .call
  | .literal _ | .grouping _ | .read .. | .this .. | .super .. => .primary

mutual

/-- The tokens of an expression, from left to right. -/
def yield : Expr ρ → List Token
  | .literal value => [.ofLiteral value]
  | .grouping inner => .ofKind .leftParen :: (inner.yield ++ [.ofKind .rightParen])
  | .unary _ sign operand => sign :: operand.yield
  | .binary _ left sign right | .logical _ left sign right => left.yield ++ sign :: right.yield
  | .read name _ => [name]
  | .assign name _ value => name :: .ofKind .equal :: value.yield
  | .call callee paren arguments => callee.yield ++ .ofKind .leftParen :: (yieldAll arguments ++ [paren])
  | .get object name => object.yield ++ [.ofKind .dot, name]
  | .set object name value => object.yield ++ .ofKind .dot :: name :: .ofKind .equal :: value.yield
  | .this keyword _ => [keyword]
  | .super keyword _ method => [keyword, .ofKind .dot, method]

/-- The tokens of expressions, with commas between them. -/
def yieldAll : List (Expr ρ) → List Token
  | [] => []
  | [only] => only.yield
  | first :: second :: rest => first.yield ++ .ofKind .comma :: yieldAll (second :: rest)

end

mutual

/-- The tokens that an expression keeps are of the kinds that its nodes are made of. -/
def Worded : Expr ρ → Prop
  | .literal _ => True
  | .grouping inner => inner.Worded
  | .unary op sign operand => Grammar.Sign sign.kind op ∧ operand.Worded
  | .binary op left sign right => Grammar.Operator op.tier sign.kind (.binary op) ∧ left.Worded ∧ right.Worded
  | .logical op left sign right => Grammar.Operator op.tier sign.kind (.logical op) ∧ left.Worded ∧ right.Worded
  | .read name _ => name.kind = .identifier
  | .assign name _ value => name.kind = .identifier ∧ value.Worded
  | .call callee paren arguments => paren.kind = .rightParen ∧ callee.Worded ∧ WordedAll arguments
  | .get object name => name.kind = .identifier ∧ object.Worded
  | .set object name value => name.kind = .identifier ∧ object.Worded ∧ value.Worded
  | .this keyword _ => keyword.kind = .thisWord
  | .super keyword _ method => keyword.kind = .superWord ∧ method.kind = .identifier

def WordedAll : List (Expr ρ) → Prop
  | [] => True
  | first :: rest => first.Worded ∧ WordedAll rest

end

mutual

/-- Every part of an expression binds tightly enough for its place: the left operand of an operator as tightly as the
operator does and the right one tighter, and so on. A call has a bounded number of arguments. -/
def Levelled : Expr ρ → Prop
  | .literal _ | .read .. | .this .. | .super .. => True
  | .grouping inner => inner.Levelled
  | .unary _ _ operand => .unary ≤ operand.level ∧ operand.Levelled
  | .binary op left _ right => .tier op.tier ≤ left.level ∧ .tier op.tier < right.level ∧ left.Levelled ∧ right.Levelled
  | .logical op left _ right => .tier op.tier ≤ left.level ∧ .tier op.tier < right.level ∧ left.Levelled ∧ right.Levelled
  | .assign _ _ value => value.Levelled
  | .call callee _ arguments =>
    .call ≤ callee.level ∧ arguments.length ≤ maxArguments ∧ callee.Levelled ∧ LevelledAll arguments
  | .get object _ => .call ≤ object.level ∧ object.Levelled
  | .set object _ value => .call ≤ object.level ∧ object.Levelled ∧ value.Levelled

def LevelledAll : List (Expr ρ) → Prop
  | [] => True
  | first :: rest => first.Levelled ∧ LevelledAll rest

end

end Expr

namespace Grammar

variable {tokens : List Token} {expr : Expr Unit}

/-- The rule for the expressions of a level. -/
def Derives : Level → List Token → Expr Unit → Prop
  | .assignment => Assignment
  | .tier tier => Operation tier
  | .unary => Unary
  | .call => Call
  | .primary => Primary

section Derivations

/-- What is derived on a level is derived on the next looser one too, with nothing added. -/
theorem derives_looser {level : Level} (derived : Derives level tokens expr) : Derives level.looser tokens expr := by
  have alone {tier : Tier} (operand : Operand tier tokens expr) : Operation tier tokens expr := by
    simpa using Operation.chain operand .done
  rcases level with _ | (_ | _ | _ | _ | _ | _) | _ | _ | _
  · exact derived
  · exact Assignment.operation derived
  · exact alone (.tighter .or derived)
  · exact alone (.tighter .and derived)
  · exact alone (.tighter .equality derived)
  · exact alone (.tighter .comparison derived)
  · exact alone (.tighter .term derived)
  · exact alone (.unary derived)
  · exact Unary.call derived
  · have call : Call (tokens ++ []) expr := .suffixed derived .done
    rwa [List.append_nil] at call

/-- What is derived on a level is derived on all looser ones. -/
theorem derives_of_le {level level' : Level} (derived : Derives level' tokens expr) (le : level ≤ level') :
    Derives level tokens expr := by
  induction distance : level'.rank - level.rank generalizing level' with
  | zero =>
    have same : level = level' := Level.eq_of_rank_eq (Nat.le_antisymm le (Nat.sub_eq_zero_iff_le.mp distance))
    rwa [same]
  | succ count ih =>
    have tight : level' ≠ .assignment := by
      rintro rfl
      simp [Level.rank] at distance
    have next := Level.rank_looser tight
    have le' : level.rank ≤ level'.looser.rank := by omega
    exact ih (derives_looser derived) le' (by omega)

theorem assignment_of_derives {level : Level} (derived : Derives level tokens expr) : Assignment tokens expr := by
  have loosest : Level.assignment ≤ level := Nat.zero_le _
  exact derives_of_le derived loosest

/-- What binds tighter than a tier is derived as an operand of it. -/
theorem operand_of_lt {level : Level} {tier : Tier} (derived : Derives level tokens expr) (lt : .tier tier < level) :
    Operand tier tokens expr := by
  have operand := derives_of_le derived (Level.operand_le_iff.mpr lt)
  cases tier with
  | or => exact .tighter .or operand
  | and => exact .tighter .and operand
  | equality => exact .tighter .equality operand
  | comparison => exact .tighter .comparison operand
  | term => exact .tighter .term operand
  | factor => exact .unary operand

theorem operation_snoc {tier : Tier} {left right : Expr Unit} {sign : Token} {joiner : Joiner} {later : List Token}
    (operation : Operation tier tokens left) (operator : Operator tier sign.kind joiner)
    (operand : Operand tier later right) : Operation tier (tokens ++ sign :: later) (joiner.join left sign right) := by
  cases operation with
  | chain first tail =>
    rw [List.append_assoc]
    exact .chain first (tail.snoc operator operand)

theorem call_snoc {object result : Expr Unit} {later : List Token} (call : Call tokens object)
    (suffix : Suffixes Assignment object later result) : Call (tokens ++ later) result := by
  cases call with
  | suffixed primary tail =>
    rw [List.append_assoc]
    exact .suffixed primary (tail.trans suffix)

theorem primary_ofLiteral (value : Literal) : Primary [.ofLiteral value] (.literal value) := by
  match value with
  | .nil => exact .nilWord rfl
  | .bool true => exact .trueWord rfl
  | .bool false => exact .falseWord rfl
  | .number _ => exact .number rfl
  | .string _ => exact .string rfl

/-- Expressions with commas between them, if there are any, are what may stand in parentheses. -/
theorem listing_of_separated {exprs : List (Expr Unit)}
    (separated : exprs ≠ [] → Separated Assignment (Expr.yieldAll exprs) exprs) (few : exprs.length ≤ maxArguments) :
    Listing Assignment (Expr.yieldAll exprs) exprs := by
  cases exprs with
  | nil => exact .none
  | cons first rest => exact .some (separated (List.cons_ne_nil _ _)) few

mutual

/-- An expression is derived from its tokens on its own level. -/
theorem derives_yield : ∀ expr : Expr Unit, expr.Worded → expr.Levelled → Derives expr.level expr.yield expr
  | .literal value, _, _ => primary_ofLiteral value
  | .grouping inner, worded, levelled =>
    Primary.group rfl (assignment_of_derives (derives_yield inner worded levelled)) rfl
  | .unary _ _ operand, ⟨sign, worded⟩, ⟨tight, levelled⟩ =>
    Unary.operator sign (derives_of_le (derives_yield operand worded levelled) tight)
  | .binary _ left _ right, ⟨operator, worded, worded'⟩, ⟨tight, tighter, levelled, levelled'⟩ =>
    operation_snoc (derives_of_le (derives_yield left worded levelled) tight) operator
      (operand_of_lt (derives_yield right worded' levelled') tighter)
  | .logical _ left _ right, ⟨operator, worded, worded'⟩, ⟨tight, tighter, levelled, levelled'⟩ =>
    operation_snoc (derives_of_le (derives_yield left worded levelled) tight) operator
      (operand_of_lt (derives_yield right worded' levelled') tighter)
  | .read _ _, named, _ => Primary.name named
  | .assign _ _ value, ⟨named, worded⟩, levelled =>
    Assignment.name named rfl (assignment_of_derives (derives_yield value worded levelled))
  | .call callee _ arguments, ⟨closes, worded, worded'⟩, ⟨tight, few, levelled, levelled'⟩ =>
    call_snoc (derives_of_le (derives_yield callee worded levelled) tight)
      (.call rfl (listing_of_separated (separated_yield arguments worded' levelled') few) closes .done)
  | .get object _, ⟨named, worded⟩, ⟨tight, levelled⟩ =>
    call_snoc (derives_of_le (derives_yield object worded levelled) tight) (.get rfl named .done)
  | .set object _ value, ⟨named, worded, worded'⟩, ⟨tight, levelled, levelled'⟩ =>
    Assignment.property (derives_of_le (derives_yield object worded levelled) tight) rfl named rfl
      (assignment_of_derives (derives_yield value worded' levelled'))
  | .this _ _, kind, _ => Primary.this kind
  | .super _ _ _, ⟨kind, named⟩, _ => Primary.super kind rfl named

theorem separated_yield : ∀ exprs : List (Expr Unit), Expr.WordedAll exprs → Expr.LevelledAll exprs → exprs ≠ [] →
    Separated Assignment (Expr.yieldAll exprs) exprs
  | [], _, _, some_ => absurd rfl some_
  | [only], ⟨worded, _⟩, ⟨levelled, _⟩, _ => .one (assignment_of_derives (derives_yield only worded levelled))
  | first :: second :: rest, ⟨worded, wordedRest⟩, ⟨levelled, levelledRest⟩, _ =>
    .more (assignment_of_derives (derives_yield first worded levelled)) rfl
      (separated_yield (second :: rest) wordedRest levelledRest (List.cons_ne_nil _ _))

end

end Derivations

section Trees

/-- The tokens of an expression that binds as tightly as a level says. -/
structure Fits (level : Level) (tokens : List Token) (expr : Expr Unit) : Prop where
  worded : expr.Worded
  levelled : expr.Levelled
  level : level ≤ expr.level
  yield : (∀ token ∈ tokens, token.Proper) → List.Forall₂ Token.Alike expr.yield tokens

theorem Fits.loosen {level level' : Level} (fits : Fits level' tokens expr) (le : level ≤ level') :
    Fits level tokens expr :=
  ⟨fits.worded, fits.levelled, Nat.le_trans le fits.level, fits.yield⟩

/-- What an operator joins stands on the tier of the operator. -/
theorem fits_join {tier : Tier} {left right : Expr Unit} {sign : Token} {joiner : Joiner} {later : List Token}
    (operator : Operator tier sign.kind joiner) (first : Fits (.tier tier) tokens left)
    (second : Fits (.operand tier) later right) :
    Fits (.tier tier) (tokens ++ sign :: later) (joiner.join left sign right) := by
  have tighter : .tier tier < right.level := Level.operand_le_iff.mp second.level
  have yields (proper : ∀ token ∈ tokens ++ sign :: later, token.Proper) :
      List.Forall₂ Token.Alike (left.yield ++ sign :: right.yield) (tokens ++ sign :: later) := by
    simp only [List.mem_append, List.mem_cons] at proper
    exact List.rel_append (first.yield fun token member => proper token (.inl member))
      (.cons (.refl sign) (second.yield fun token member => proper token (.inr (.inr member))))
  have known := operator
  generalize sign.kind = kind at known
  cases known <;>
    exact ⟨⟨operator, first.worded, second.worded⟩, ⟨first.level, tighter, first.levelled, second.levelled⟩,
      Nat.le_refl _, yields⟩

/-- A primary expression binds as tightly as anything. -/
theorem fits_primary (worded : expr.Worded) (levelled : expr.Levelled) (level : expr.level = .primary)
    (yield : (∀ token ∈ tokens, token.Proper) → List.Forall₂ Token.Alike expr.yield tokens) :
    Fits .primary tokens expr :=
  ⟨worded, levelled, level ▸ Nat.le_refl _, yield⟩

theorem fits_word {token : Token} {kind : TokenKind} {value : Literal} {text : String} (isKind : token.kind = kind)
    (known : Token.ofLiteral value = .ofKind kind) (spelled : kind.text? = some text) :
    Fits .primary [token] (.literal value) := by
  refine fits_primary trivial trivial rfl fun proper => ?_
  have alike := (proper token List.mem_cons_self).alike_ofKind isKind spelled
  rw [← known] at alike
  exact .cons alike .nil

/-- The value of a number or a string. -/
theorem fits_value {token : Token} (isValue : token.kind = .number ∨ token.kind = .string) :
    Fits .primary [token] (.literal (token.literal.getD .nil)) := by
  refine fits_primary trivial trivial rfl fun proper => .cons ?_ .nil
  have proper := proper token List.mem_cons_self
  rcases isValue with kind | kind
  · obtain ⟨value, given⟩ := proper.number kind
    simp [given, Token.ofLiteral, Token.Alike, kind]
  · obtain ⟨text, given⟩ := proper.string kind
    simp [given, Token.ofLiteral, Token.Alike, kind]

theorem Fits.call {callee : Expr Unit} {opening closing : Token} {arguments : List (Expr Unit)} {inside : List Token}
    (fits : Fits .call tokens callee) (opens : opening.kind = .leftParen) (closes : closing.kind = .rightParen)
    (worded : Expr.WordedAll arguments) (levelled : Expr.LevelledAll arguments) (few : arguments.length ≤ maxArguments)
    (yields : (∀ token ∈ inside, token.Proper) → List.Forall₂ Token.Alike (Expr.yieldAll arguments) inside) :
    Fits .call (tokens ++ opening :: (inside ++ [closing])) (.call callee closing arguments) := by
  refine ⟨⟨closes, fits.worded, worded⟩, ⟨fits.level, few, fits.levelled, levelled⟩, Nat.le_refl _, fun proper => ?_⟩
  simp only [List.forall_mem_append, List.forall_mem_cons] at proper
  obtain ⟨first, paren, second, _⟩ := proper
  exact List.rel_append (fits.yield first)
    (.cons (paren.alike_ofKind opens rfl) (List.rel_append (yields second) (.cons (.refl closing) .nil)))

theorem Fits.get {object : Expr Unit} {dot name : Token} (fits : Fits .call tokens object) (sign : dot.kind = .dot)
    (named : name.kind = .identifier) : Fits .call (tokens ++ [dot, name]) (.get object name) := by
  refine ⟨⟨named, fits.worded⟩, ⟨fits.level, fits.levelled⟩, Nat.le_refl _, fun proper => ?_⟩
  simp only [List.forall_mem_append, List.forall_mem_cons] at proper
  obtain ⟨first, point, _⟩ := proper
  exact List.rel_append (fits.yield first) (.cons (point.alike_ofKind sign rfl) (.cons (.refl name) .nil))

theorem yieldAll_cons (first : Expr Unit) {rest : List (Expr Unit)} (some_ : rest ≠ []) :
    Expr.yieldAll (first :: rest) = first.yield ++ .ofKind .comma :: Expr.yieldAll rest := by
  cases rest with
  | nil => exact absurd rfl some_
  | cons second rest => rw [Expr.yieldAll]

theorem Separated.ne_nil {Item : List Token → Expr Unit → Prop} {items : List (Expr Unit)}
    (separated : Separated Item tokens items) : items ≠ [] := by
  cases separated <;> exact List.cons_ne_nil _ _

mutual

theorem Assignment.fits {tokens : List Token} {expr : Expr Unit} :
    Assignment tokens expr → Fits .assignment tokens expr
  | .name named sign right => by
    have value := right.fits
    refine ⟨⟨named, value.worded⟩, value.levelled, Nat.zero_le _, fun proper => ?_⟩
    simp only [List.forall_mem_cons] at proper
    exact .cons (.refl _) (.cons (proper.2.1.alike_ofKind sign rfl) (value.yield proper.2.2))
  | .property left point named sign right => by
    have object := left.fits
    have value := right.fits
    refine ⟨⟨named, object.worded, value.worded⟩, ⟨object.level, object.levelled, value.levelled⟩, Nat.zero_le _,
      fun proper => ?_⟩
    simp only [List.forall_mem_append, List.forall_mem_cons] at proper
    obtain ⟨first, dot, _, equals, second⟩ := proper
    exact List.rel_append (object.yield first) (.cons (dot.alike_ofKind point rfl) (.cons (.refl _)
      (.cons (equals.alike_ofKind sign rfl) (value.yield second))))
  | .operation operation => operation.fits.loosen (Nat.zero_le _)

theorem Operation.fits {level : Tier} {tokens : List Token} {expr : Expr Unit} :
    Operation level tokens expr → Fits (.tier level) tokens expr
  | .chain operand tail => Chain.fits tail (operand.fits.loosen (Nat.le_of_lt (Level.operand_le_iff.mp (Nat.le_refl _))))

theorem Chain.fits {level : Tier} {left result : Expr Unit} {before tokens : List Token} :
    Chain Operand left level tokens result → Fits (.tier level) before left →
    Fits (.tier level) (before ++ tokens) result
  | .done, first => by rwa [List.append_nil]
  | .more operator operand tail, first => by
    have joined := Chain.fits tail (fits_join operator first operand.fits)
    rwa [List.append_assoc, List.cons_append] at joined

theorem Operand.fits {level : Tier} {tokens : List Token} {expr : Expr Unit} :
    Operand level tokens expr → Fits (.operand level) tokens expr
  | .tighter above operation => by
    have inner := operation.fits
    cases above <;> exact inner
  | .unary unary => unary.fits

theorem Unary.fits {tokens : List Token} {expr : Expr Unit} : Unary tokens expr → Fits .unary tokens expr
  | .operator operator right => by
    have operand := right.fits
    refine ⟨⟨operator, operand.worded⟩, ⟨operand.level, operand.levelled⟩, Nat.le_refl _, fun proper => ?_⟩
    simp only [List.forall_mem_cons] at proper
    exact .cons (.refl _) (operand.yield proper.2)
  | .call call => call.fits.loosen (by decide)

theorem Call.fits {tokens : List Token} {expr : Expr Unit} : Call tokens expr → Fits .call tokens expr
  | .suffixed primary tail => Suffixes.fits tail (primary.fits.loosen (by decide))

theorem Suffixes.fits {object result : Expr Unit} {before tokens : List Token} :
    Suffixes Assignment object tokens result → Fits .call before object → Fits .call (before ++ tokens) result
  | .done, first => by rwa [List.append_nil]
  | .call opens listing closes tail, first => by
    obtain ⟨worded, levelled, few, yields⟩ := Listing.fits listing
    have called := Suffixes.fits tail (first.call opens closes worded levelled few yields)
    simpa using called
  | .get sign named tail, first => by
    have got := Suffixes.fits tail (first.get sign named)
    rwa [List.append_assoc] at got

theorem Listing.fits {tokens : List Token} {items : List (Expr Unit)} :
    Listing Assignment tokens items → Expr.WordedAll items ∧ Expr.LevelledAll items ∧ items.length ≤ maxArguments ∧
      ((∀ token ∈ tokens, token.Proper) → List.Forall₂ Token.Alike (Expr.yieldAll items) tokens)
  | .none => ⟨trivial, trivial, Nat.zero_le _, fun _ => .nil⟩
  | .some separated few =>
    have ⟨worded, levelled, yields⟩ := Separated.fits separated
    ⟨worded, levelled, few, yields⟩

theorem Separated.fits {tokens : List Token} {items : List (Expr Unit)} :
    Separated Assignment tokens items → Expr.WordedAll items ∧ Expr.LevelledAll items ∧
      ((∀ token ∈ tokens, token.Proper) → List.Forall₂ Token.Alike (Expr.yieldAll items) tokens)
  | .one only =>
    have item := only.fits
    ⟨⟨item.worded, trivial⟩, ⟨item.levelled, trivial⟩, item.yield⟩
  | .more head sign tail => by
    have item := head.fits
    obtain ⟨worded, levelled, yields⟩ := Separated.fits tail
    refine ⟨⟨item.worded, worded⟩, ⟨item.levelled, levelled⟩, fun proper => ?_⟩
    simp only [List.forall_mem_append, List.forall_mem_cons] at proper
    obtain ⟨first, comma, rest⟩ := proper
    rw [yieldAll_cons _ (Separated.ne_nil tail)]
    exact List.rel_append (item.yield first) (.cons (comma.alike_ofKind sign rfl) (yields rest))

theorem Primary.fits {tokens : List Token} {expr : Expr Unit} : Primary tokens expr → Fits .primary tokens expr
  | .falseWord kind => fits_word kind rfl rfl
  | .trueWord kind => fits_word kind rfl rfl
  | .nilWord kind => fits_word kind rfl rfl
  | .number kind => fits_value (.inl kind)
  | .string kind => fits_value (.inr kind)
  | .this kind => fits_primary kind trivial rfl fun _ => .cons (.refl _) .nil
  | .name kind => fits_primary kind trivial rfl fun _ => .cons (.refl _) .nil
  | .group opens inside closes => by
    have inner := inside.fits
    refine fits_primary inner.worded inner.levelled rfl fun proper => ?_
    simp only [List.forall_mem_append, List.forall_mem_cons] at proper
    obtain ⟨opening, middle, closing, _⟩ := proper
    exact .cons (opening.alike_ofKind opens rfl)
      (List.rel_append (inner.yield middle) (.cons (closing.alike_ofKind closes rfl) .nil))
  | .super kind point named => by
    refine fits_primary ⟨kind, named⟩ trivial rfl fun proper => ?_
    simp only [List.forall_mem_cons] at proper
    exact .cons (.refl _) (.cons (proper.2.1.alike_ofKind point rfl) (.cons (.refl _) .nil))

end

end Trees

end Grammar

namespace Parsed

variable {room : Nat} {tokens : List Token} {finish : Token} {expr : Expr Unit}

/-- The one statement of a program that is an expression. -/
theorem derived_of_expression (derived : Grammar.Program .any tokens [.expression expr]) :
    ∃ body semicolon, tokens = body ++ [semicolon] ∧ semicolon.kind = .semicolon ∧ Grammar.Assignment body expr := by
  cases derived with
  | cons head tail =>
    cases tail
    rw [List.append_nil]
    generalize same : Stmt.expression expr = stmt at head
    cases head with
    | classDecl | funDecl => cases same
    | varDecl declared =>
      obtain ⟨_, _, _, _⟩ := declared
      cases same
    | statement statement =>
      cases statement with
      | expression ended =>
        obtain ⟨expression, ends⟩ := ended
        cases same
        exact ⟨_, _, rfl, ends, expression⟩
      | @forLoop _ _ _ _ _ _ _ _ initial =>
        cases initial <;> cases same
      | _ => cases same

/-- Reading an expression and taking its tokens are inverse to each other. The tokens of an expression whose parts all
bind tightly enough, with a semicolon after them, are read as that expression and nothing else; and an expression
that is read has parts that bind tightly enough, and the tokens that it was read from. The tokens of a text are
proper, whatever the text is. -/
theorem within?_inverts_yield (room : Nat) (finish : Token) :
    (∀ (expr : Expr Unit) (semicolon : Token), expr.Worded → expr.Levelled → semicolon.kind = .semicolon →
      (12 * (expr.yield.length + 1) + 12 ≤ room →
        within? room (expr.yield ++ [semicolon]) finish = some ⟨[.expression expr], []⟩) ∧
      ∀ parsed, within? room (expr.yield ++ [semicolon]) finish = some parsed → parsed = ⟨[.expression expr], []⟩) ∧
    (∀ (tokens : List Token) (expr : Expr Unit), within? room tokens finish = some ⟨[.expression expr], []⟩ →
      expr.Worded ∧ expr.Levelled ∧ ∃ body semicolon, tokens = body ++ [semicolon] ∧ semicolon.kind = .semicolon ∧
        ((∀ token ∈ body, token.Proper) → List.Forall₂ Token.Alike expr.yield body)) ∧
    ∀ (text : List Char) (line : Int), ∀ token ∈ (Scan.ofText text line).tokens, token.Proper := by
  refine ⟨fun expr semicolon worded levelled ends => ?_, fun tokens expr read => ?_,
    fun text line token member => Scan.proper_of_mem member⟩
  · have expression := Grammar.assignment_of_derives (Grammar.derives_yield expr worded levelled)
    have derived : Grammar.Program .nearest (expr.yield ++ [semicolon] ++ []) [.expression expr] :=
      .cons (.statement (.expression (.ended expression ends))) .nil
    rw [List.append_nil] at derived
    refine ⟨fun enough => ?_, fun parsed read => eq_of_derived derived read⟩
    obtain ⟨parsed, read⟩ := exists_within? (expr.yield ++ [semicolon]) finish (by simpa using enough)
    rw [read, eq_of_derived derived read]
  · obtain ⟨body, semicolon, rfl, ends, expression⟩ := derived_of_expression (derived_of_within? .any read rfl)
    have fits := expression.fits
    exact ⟨fits.worded, fits.levelled, body, semicolon, rfl, ends, fits.yield⟩

/-- `-a.b(c, true) * (d = nil);` -/
theorem within?_inverts_yield_of_product :
    let name (text : String) : Token := ⟨.identifier, text, none, ⟨1, 0⟩⟩
    let expr : Expr Unit := .binary .multiply
      (.unary .negate (.ofKind .minus) (.call (.get (.read (name "a") ()) (name "b")) (.ofKind .rightParen)
        [.read (name "c") (), .literal (.bool true)]))
      (.ofKind .star) (.grouping (.assign (name "d") () (.literal .nil)))
    within? 240 (expr.yield ++ [.ofKind .semicolon]) (.ofKind .eof) = some ⟨[.expression expr], []⟩ ∧
      expr.Worded ∧ expr.Levelled ∧ ∃ body semicolon, expr.yield ++ [.ofKind .semicolon] = body ++ [semicolon] ∧
        List.Forall₂ Token.Alike expr.yield body := by
  intro name expr
  obtain ⟨reads, yields, _⟩ := within?_inverts_yield 240 (.ofKind .eof)
  have worded : expr.Worded := ⟨.multiply, ⟨.negate, rfl, ⟨rfl, rfl⟩, rfl, trivial, trivial⟩, rfl, trivial⟩
  have levelled : expr.Levelled :=
    ⟨by decide, by decide, ⟨by decide, by decide, by decide, ⟨by decide, trivial⟩, trivial, trivial, trivial⟩, trivial⟩
  have read := (reads expr (.ofKind .semicolon) worded levelled rfl).1 (by decide)
  have named (text : String) : (name text).Proper := ⟨nofun, nofun, nofun⟩
  have proper : ∀ token ∈ expr.yield, token.Proper := by
    simp (disch := decide) [expr, Expr.yield, Expr.yieldAll, Token.ofLiteral, named, Token.proper_ofKind]
  obtain ⟨_, _, body, semicolon, same, _, alike⟩ := yields _ expr read
  obtain ⟨isBody, _⟩ := List.append_inj' same rfl
  exact ⟨read, worded, levelled, body, semicolon, same, alike (isBody ▸ proper)⟩

end Parsed

end Lox
