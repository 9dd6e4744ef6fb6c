import Lox.Proofs.Grammar
import Lox.Proofs.Scope.Places
import Lox.Proofs.Token.Spelling

/-!
What the trees of the grammar look like, as far as binding and running rely on it: the names that are
declared or assigned are no reserved words, the keywords are spelled as such, and no branch of a statement
is a declaration.
-/
namespace Lox

section Shaped

variable {ρ : Type}

mutual

def Expr.Shaped : Expr ρ → Prop
  | .literal _ | .read _ _ => True
  | .grouping inner => inner.Shaped
  | .unary _ _ operand => operand.Shaped
  | .binary _ left _ right => left.Shaped ∧ right.Shaped
  | .logical _ left _ right => left.Shaped ∧ right.Shaped
  | .assign name _ value => name.Plain ∧ value.Shaped
  | .call callee _ arguments => callee.Shaped ∧ Expr.ShapedAll arguments
  | .get object _ => object.Shaped
  | .set object _ value => object.Shaped ∧ value.Shaped
  | .this keyword _ => keyword.lexeme = "this"
  | .super keyword _ _ => keyword.lexeme = "super"

def Expr.ShapedAll : List (Expr ρ) → Prop
  | [] => True
  | first :: rest => first.Shaped ∧ Expr.ShapedAll rest

end

def Expr.ShapedOption : Option (Expr ρ) → Prop
  | none => True
  | some value => value.Shaped

mutual

def Stmt.Shaped : Stmt ρ → Prop
  | .expression value | .print value => value.Shaped
  | .varDecl name initial => name.Plain ∧ Expr.ShapedOption initial
  | .block body => Stmt.ShapedAll body
  | .ifThen condition accepted => condition.Shaped ∧ accepted.Shaped ∧ accepted.declared = []
  | .ifElse condition accepted rejected =>
    condition.Shaped ∧ (accepted.Shaped ∧ accepted.declared = []) ∧ rejected.Shaped ∧ rejected.declared = []
  | .whileLoop condition body => condition.Shaped ∧ body.Shaped ∧ body.declared = []
  | .funDecl declaration => declaration.name.Plain ∧ declaration.Shaped
  | .returnStmt _ value => Expr.ShapedOption value
  | .classDecl name _ methods => name.Plain ∧ FunctionDecl.ShapedAll methods

def Stmt.ShapedAll : List (Stmt ρ) → Prop
  | [] => True
  | first :: rest => first.Shaped ∧ Stmt.ShapedAll rest

def FunctionDecl.Shaped : FunctionDecl ρ → Prop
  | .mk _ params body => (∀ param ∈ params, param.Plain) ∧ Stmt.ShapedAll body

def FunctionDecl.ShapedAll : List (FunctionDecl ρ) → Prop
  | [] => True
  | first :: rest => first.Shaped ∧ FunctionDecl.ShapedAll rest

end

end Shaped

namespace Grammar

/-- All tokens are spelled as their kinds say. -/
def AllSpelled (tokens : List Token) : Prop := ∀ token ∈ tokens, token.Spelled

@[simp]
theorem allSpelled_nil : AllSpelled [] := by simp [AllSpelled]

@[simp]
theorem allSpelled_cons {first : Token} {rest : List Token} :
    AllSpelled (first :: rest) ↔ first.Spelled ∧ AllSpelled rest := by
  simp [AllSpelled]

@[simp]
theorem allSpelled_append {first rest : List Token} :
    AllSpelled (first ++ rest) ↔ AllSpelled first ∧ AllSpelled rest := by
  simp [AllSpelled, or_imp, forall_and]

theorem shaped_join {joiner : Joiner} {left right : Expr Unit} {sign : Token} (first : left.Shaped)
    (second : right.Shaped) : (joiner.join left sign right).Shaped := by
  cases joiner <;> exact ⟨first, second⟩

mutual

theorem Assignment.shaped {tokens : List Token} {expr : Expr Unit} :
    Assignment tokens expr → AllSpelled tokens → expr.Shaped
  | .name named _ right, spelled => by
    simp only [allSpelled_cons] at spelled
    exact ⟨spelled.1.plain named, right.shaped spelled.2.2⟩
  | .property left _ _ _ right, spelled => by
    simp only [allSpelled_append, allSpelled_cons] at spelled
    exact ⟨left.shaped spelled.1, right.shaped spelled.2.2.2.2⟩
  | .operation operation, spelled => operation.shaped spelled

theorem Operation.shaped {level : Tier} {tokens : List Token} {expr : Expr Unit} :
    Operation level tokens expr → AllSpelled tokens → expr.Shaped
  | .chain operand tail, spelled => by
    simp only [allSpelled_append] at spelled
    exact Chain.shaped tail (operand.shaped spelled.1) spelled.2

theorem Chain.shaped {level : Tier} {left result : Expr Unit} {tokens : List Token} :
    Chain Operand left level tokens result → left.Shaped → AllSpelled tokens → result.Shaped
  | .done, before, _ => before
  | .more _ operand tail, before, spelled => by
    simp only [allSpelled_cons, allSpelled_append] at spelled
    exact Chain.shaped tail (shaped_join before (operand.shaped spelled.2.1)) spelled.2.2

theorem Operand.shaped {level : Tier} {tokens : List Token} {expr : Expr Unit} :
    Operand level tokens expr → AllSpelled tokens → expr.Shaped
  | .tighter _ operation, spelled => operation.shaped spelled
  | .unary unary, spelled => unary.shaped spelled

theorem Unary.shaped {tokens : List Token} {expr : Expr Unit} :
    Unary tokens expr → AllSpelled tokens → expr.Shaped
  | .operator _ right, spelled => by
    simp only [allSpelled_cons] at spelled
    exact right.shaped spelled.2
  | .call call, spelled => call.shaped spelled

theorem Call.shaped {tokens : List Token} {expr : Expr Unit} :
    Call tokens expr → AllSpelled tokens → expr.Shaped
  | .suffixed primary tail, spelled => by
    simp only [allSpelled_append] at spelled
    exact Suffixes.shaped tail (primary.shaped spelled.1) spelled.2

theorem Suffixes.shaped {object result : Expr Unit} {tokens : List Token} :
    Suffixes Assignment object tokens result → object.Shaped → AllSpelled tokens → result.Shaped
  | .done, before, _ => before
  | .call _ listing _ tail, before, spelled => by
    simp only [allSpelled_cons, allSpelled_append] at spelled
    exact Suffixes.shaped tail ⟨before, Listing.shaped listing spelled.2.1⟩ spelled.2.2.2
  | .get _ _ tail, before, spelled => by
    simp only [allSpelled_cons] at spelled
    exact Suffixes.shaped tail before spelled.2.2

theorem Listing.shaped {tokens : List Token} {items : List (Expr Unit)} :
    Listing Assignment tokens items → AllSpelled tokens → Expr.ShapedAll items
  | .none, _ => trivial
  | .some separated _, spelled => Separated.shaped separated spelled

theorem Separated.shaped {tokens : List Token} {items : List (Expr Unit)} :
    Separated Assignment tokens items → AllSpelled tokens → Expr.ShapedAll items
  | .one only, spelled => ⟨only.shaped spelled, trivial⟩
  | .more head _ tail, spelled => by
    simp only [allSpelled_append, allSpelled_cons] at spelled
    exact ⟨head.shaped spelled.1, Separated.shaped tail spelled.2.2⟩

theorem Primary.shaped {tokens : List Token} {expr : Expr Unit} :
    Primary tokens expr → AllSpelled tokens → expr.Shaped
  | .falseWord _, _ | .trueWord _, _ | .nilWord _, _ | .number _, _ | .string _, _ | .name _, _ => trivial
  | .this kind, spelled => (spelled _ (by simp)).this kind
  | .group _ inside _, spelled => by
    simp only [allSpelled_cons, allSpelled_append] at spelled
    exact inside.shaped spelled.2.1
  | .super kind _ _, spelled => (spelled _ (by simp)).super kind

end

theorem Name.plain {tokens : List Token} {params : List Token} (listing : Listing Name tokens params)
    (spelled : AllSpelled tokens) : ∀ param ∈ params, param.Plain := by
  cases listing with
  | none => simp
  | some separated few =>
    clear few
    induction separated with
    | one only =>
      obtain ⟨named⟩ := only
      simpa using (spelled _ (by simp)).plain named
    | more head _ _ ih =>
      obtain ⟨named⟩ := head
      simp only [allSpelled_append, allSpelled_cons] at spelled
      simpa using ⟨spelled.1.1.plain named, ih spelled.2.2⟩

theorem Optional.shaped {tokens : List Token} {value : Option (Expr Unit)}
    (optional : Optional Assignment tokens value) (spelled : AllSpelled tokens) : Expr.ShapedOption value := by
  cases optional with
  | none => trivial
  | some present => exact present.shaped spelled

theorem VarDecl.shaped {tokens : List Token} {stmt : Stmt Unit} (declared : VarDecl tokens stmt)
    (spelled : AllSpelled tokens) : stmt.Shaped := by
  obtain ⟨_, named, initializer, _⟩ := declared
  simp only [allSpelled_cons, allSpelled_append] at spelled
  refine ⟨spelled.2.1.plain named, ?_⟩
  cases initializer with
  | none => trivial
  | some _ right =>
    simp only [allSpelled_cons] at spelled
    exact right.shaped spelled.2.2.1.2

theorem ExpressionStatement.shaped {tokens : List Token} {stmt : Stmt Unit}
    (ended : ExpressionStatement tokens stmt) (spelled : AllSpelled tokens) : stmt.Shaped := by
  obtain ⟨expression, _⟩ := ended
  simp only [allSpelled_append] at spelled
  exact expression.shaped spelled.1

theorem shaped_forLoop {initial : Option (Stmt Unit)} {condition increment : Option (Expr Unit)}
    {body : Stmt Unit} (first : ∀ stmt, initial = some stmt → stmt.Shaped) (test : Expr.ShapedOption condition)
    (step : Expr.ShapedOption increment) (inside : body.Shaped) (undeclared : body.declared = []) :
    (Stmt.forLoop initial condition increment body).Shaped ∧
      (Stmt.forLoop initial condition increment body).declared = [] := by
  cases initial <;> cases condition <;> cases increment <;>
    simp_all [Stmt.forLoop, Stmt.Shaped, Stmt.ShapedAll, Stmt.declared, Expr.ShapedOption, Expr.Shaped]

variable {rule : ElseRule}

mutual

theorem Declaration.shaped {tokens : List Token} {stmt : Stmt Unit} :
    Declaration rule tokens stmt → AllSpelled tokens → stmt.Shaped
  | .classDecl _ named _ _ body _, spelled => by
    simp only [allSpelled_cons, allSpelled_append] at spelled
    exact ⟨spelled.2.1.plain named, Function.shapedMany body spelled.2.2.2.2.1⟩
  | .funDecl _ function, spelled => by
    simp only [allSpelled_cons] at spelled
    exact function.shaped spelled.2
  | .varDecl declared, spelled => declared.shaped spelled
  | .statement statement, spelled => (statement.shaped spelled).1

theorem Declaration.shapedMany {tokens : List Token} {body : List (Stmt Unit)} :
    Many (Declaration rule) tokens body → AllSpelled tokens → Stmt.ShapedAll body
  | .nil, _ => trivial
  | .cons head tail, spelled => by
    simp only [allSpelled_append] at spelled
    exact ⟨head.shaped spelled.1, Declaration.shapedMany tail spelled.2⟩

theorem Function.shaped {tokens : List Token} {declaration : FunctionDecl Unit} :
    Function rule tokens declaration → AllSpelled tokens → declaration.name.Plain ∧ declaration.Shaped
  | .named named _ listing _ block, spelled => by
    simp only [allSpelled_cons, allSpelled_append] at spelled
    exact ⟨spelled.1.plain named, Name.plain listing spelled.2.2.1, block.shaped spelled.2.2.2.2⟩

theorem Function.shapedMany {tokens : List Token} {methods : List (FunctionDecl Unit)} :
    Many (Function rule) tokens methods → AllSpelled tokens → FunctionDecl.ShapedAll methods
  | .nil, _ => trivial
  | .cons head tail, spelled => by
    simp only [allSpelled_append] at spelled
    exact ⟨(head.shaped spelled.1).2, Function.shapedMany tail spelled.2⟩

theorem Block.shaped {tokens : List Token} {body : List (Stmt Unit)} :
    Block rule tokens body → AllSpelled tokens → Stmt.ShapedAll body
  | .braced _ inside _, spelled => by
    simp only [allSpelled_cons, allSpelled_append] at spelled
    exact Declaration.shapedMany inside spelled.2.1

/-- A statement has the shape, and declares nothing. -/
theorem Statement.shaped {dangling : Bool} {tokens : List Token} {stmt : Stmt Unit} :
    Statement rule dangling tokens stmt → AllSpelled tokens → stmt.Shaped ∧ stmt.declared = []
  | .expression ended, spelled => by
    refine ⟨ended.shaped spelled, ?_⟩
    obtain ⟨_, _⟩ := ended
    rfl
  | .forLoop _ _ start test _ step _ inside, spelled => by
    simp only [allSpelled_cons, allSpelled_append] at spelled
    have body := inside.shaped spelled.2.2.2.2.2.2.2
    refine shaped_forLoop ?_ (test.shaped spelled.2.2.2.1) (step.shaped spelled.2.2.2.2.2.1) body.1 body.2
    rintro _ rfl
    cases start with
    | varDecl declared => exact declared.shaped spelled.2.2.1
    | expression ended => exact ended.shaped spelled.2.2.1
  | .ifThen _ _ tested _ inside, spelled => by
    simp only [allSpelled_cons, allSpelled_append] at spelled
    have body := inside.shaped spelled.2.2.2.2
    exact ⟨⟨tested.shaped spelled.2.2.1, body⟩, body.2⟩
  | .ifElse _ _ tested _ inside _ _ outside, spelled => by
    simp only [allSpelled_cons, allSpelled_append] at spelled
    have first := inside.shaped spelled.2.2.2.2.1
    have second := outside.shaped spelled.2.2.2.2.2.2
    refine ⟨⟨tested.shaped spelled.2.2.1, first, second⟩, ?_⟩
    simp [Stmt.declared, first.2, second.2]
  | .print _ expression _, spelled => by
    simp only [allSpelled_cons, allSpelled_append] at spelled
    exact ⟨expression.shaped spelled.2.1, rfl⟩
  | .returnStmt _ expression _, spelled => by
    simp only [allSpelled_cons, allSpelled_append] at spelled
    exact ⟨expression.shaped spelled.2.1, rfl⟩
  | .whileLoop _ _ tested _ inside, spelled => by
    simp only [allSpelled_cons, allSpelled_append] at spelled
    have body := inside.shaped spelled.2.2.2.2
    exact ⟨⟨tested.shaped spelled.2.2.1, body⟩, body.2⟩
  | .block block, spelled => ⟨block.shaped spelled, rfl⟩

end

end Grammar

end Lox
