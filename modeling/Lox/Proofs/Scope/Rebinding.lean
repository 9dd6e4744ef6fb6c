import Lox.Proofs.Grammar.Shape
import Lox.Proofs.Scope.Lexical
import Lox.Proofs.Scope.Violations

/-!
Binding looks at no notes. So a tree that is bound already is bound again to itself, with the faults that it
had, and what binding says about a program is said about the spots of the bound one.
-/
namespace Lox

variable {ρ : Type}

mutual

theorem Expr.bind_bare (around : Surrounding) : ∀ expr : Expr ρ, expr.bare.bind around = expr.bind around
  | .literal _ | .read _ _ | .this _ _ | .super _ _ _ => rfl
  | .grouping inner => by simp only [Expr.bare, Expr.bind, inner.bind_bare]
  | .unary _ _ operand => by simp only [Expr.bare, Expr.bind, operand.bind_bare]
  | .binary _ left _ right => by simp only [Expr.bare, Expr.bind, left.bind_bare, right.bind_bare]
  | .logical _ left _ right => by simp only [Expr.bare, Expr.bind, left.bind_bare, right.bind_bare]
  | .assign _ _ value => by simp only [Expr.bare, Expr.bind, value.bind_bare]
  | .call callee _ arguments => by simp only [Expr.bare, Expr.bind, callee.bind_bare, Expr.bindAll_bare around arguments]
  | .get object _ => by simp only [Expr.bare, Expr.bind, object.bind_bare]
  | .set object _ value => by simp only [Expr.bare, Expr.bind, object.bind_bare, value.bind_bare]

theorem Expr.bindAll_bare (around : Surrounding) :
    ∀ exprs : List (Expr ρ), Expr.bindAll around (Expr.bareAll exprs) = Expr.bindAll around exprs
  | [] => rfl
  | first :: rest => by simp only [Expr.bareAll, Expr.bindAll, first.bind_bare, Expr.bindAll_bare around rest]

end

theorem Expr.bindOption_bare (around : Surrounding) (value : Option (Expr ρ)) :
    Expr.bindOption around (value.map Expr.bare) = Expr.bindOption around value := by
  cases value with
  | none => rfl
  | some value => simp only [Option.map_some, Expr.bindOption, value.bind_bare]

mutual

theorem Stmt.bind_bare (known : List String) (around : Surrounding) :
    ∀ stmt : Stmt ρ, stmt.bare.bind known around = stmt.bind known around
  | .expression value => by simp only [Stmt.bare, Stmt.bind, value.bind_bare]
  | .print value => by simp only [Stmt.bare, Stmt.bind, value.bind_bare]
  | .varDecl _ initial => by simp only [Stmt.bare, Stmt.bind, Expr.bindOption_bare]
  | .block body => by simp only [Stmt.bare, Stmt.bind, Stmt.bindAll_bare known around body]
  | .ifThen condition accepted => by
    simp only [Stmt.bare, Stmt.bind, condition.bind_bare, accepted.bind_bare known]
  | .ifElse condition accepted rejected => by
    simp only [Stmt.bare, Stmt.bind, condition.bind_bare, accepted.bind_bare known, rejected.bind_bare known]
  | .whileLoop condition body => by simp only [Stmt.bare, Stmt.bind, condition.bind_bare, body.bind_bare known]
  | .funDecl (.mk name params body) => by
    simp only [Stmt.bare, FunctionDecl.bare, Stmt.bind, FunctionDecl.name, FunctionDecl.bind, Stmt.bindAll_bare known _ body]
  | .returnStmt _ value => by simp only [Stmt.bare, Stmt.bind, Expr.bindOption_bare, Option.isSome_map]
  | .classDecl name superclass methods => by
    have same : Bind.superclass name (superclass.map fun (parent, _) => (parent, ())) = Bind.superclass name superclass := by
      cases superclass <;> rfl
    simp only [Stmt.bare, Stmt.bind, same, FunctionDecl.bindMethods_bare known _ methods]

theorem Stmt.bindAll_bare (known : List String) (around : Surrounding) :
    ∀ body : List (Stmt ρ), Stmt.bindAll known around (Stmt.bareAll body) = Stmt.bindAll known around body
  | [] => rfl
  | first :: rest => by simp only [Stmt.bareAll, Stmt.bindAll, first.bind_bare known, Stmt.bindAll_bare known around rest]

theorem FunctionDecl.bindMethods_bare (known : List String) (around : Surrounding) :
    ∀ methods : List (FunctionDecl ρ),
      FunctionDecl.bindMethods known around (FunctionDecl.bareAll methods) = FunctionDecl.bindMethods known around methods
  | [] => rfl
  | .mk name params body :: rest => by
    simp only [FunctionDecl.bareAll, FunctionDecl.bare, FunctionDecl.bindMethods, FunctionDecl.name, FunctionDecl.bind,
      Stmt.bindAll_bare known _ body, FunctionDecl.bindMethods_bare known around rest]

end

section Shaped

mutual

theorem Expr.shaped_of_bare : ∀ expr : Expr ρ, expr.bare.Shaped → expr.Shaped
  | .literal _, shaped | .read _ _, shaped | .this _ _, shaped | .super _ _ _, shaped => shaped
  | .grouping inner, shaped => inner.shaped_of_bare shaped
  | .unary _ _ operand, shaped => operand.shaped_of_bare shaped
  | .binary _ left _ right, shaped => ⟨left.shaped_of_bare shaped.1, right.shaped_of_bare shaped.2⟩
  | .logical _ left _ right, shaped => ⟨left.shaped_of_bare shaped.1, right.shaped_of_bare shaped.2⟩
  | .assign _ _ value, shaped => ⟨shaped.1, value.shaped_of_bare shaped.2⟩
  | .call callee _ arguments, shaped => ⟨callee.shaped_of_bare shaped.1, Expr.shapedAll_of_bare arguments shaped.2⟩
  | .get object _, shaped => object.shaped_of_bare shaped
  | .set object _ value, shaped => ⟨object.shaped_of_bare shaped.1, value.shaped_of_bare shaped.2⟩

theorem Expr.shapedAll_of_bare : ∀ exprs : List (Expr ρ), Expr.ShapedAll (Expr.bareAll exprs) → Expr.ShapedAll exprs
  | [], _ => trivial
  | first :: rest, shaped => ⟨first.shaped_of_bare shaped.1, Expr.shapedAll_of_bare rest shaped.2⟩

end

theorem Expr.shapedOption_of_bare {value : Option (Expr ρ)} (shaped : Expr.ShapedOption (value.map Expr.bare)) :
    Expr.ShapedOption value := by
  cases value with
  | none => trivial
  | some value => exact value.shaped_of_bare shaped

mutual

theorem Stmt.shaped_of_bare : ∀ stmt : Stmt ρ, stmt.bare.Shaped → stmt.Shaped
  | .expression value, shaped => value.shaped_of_bare shaped
  | .print value, shaped => value.shaped_of_bare shaped
  | .varDecl _ _, shaped => ⟨shaped.1, Expr.shapedOption_of_bare shaped.2⟩
  | .block body, shaped => Stmt.shapedAll_of_bare body shaped
  | .ifThen condition accepted, shaped =>
    ⟨condition.shaped_of_bare shaped.1, accepted.shaped_of_bare shaped.2.1, accepted.declared_bare ▸ shaped.2.2⟩
  | .ifElse condition accepted rejected, shaped =>
    ⟨condition.shaped_of_bare shaped.1, ⟨accepted.shaped_of_bare shaped.2.1.1, accepted.declared_bare ▸ shaped.2.1.2⟩,
      rejected.shaped_of_bare shaped.2.2.1, rejected.declared_bare ▸ shaped.2.2.2⟩
  | .whileLoop condition body, shaped =>
    ⟨condition.shaped_of_bare shaped.1, body.shaped_of_bare shaped.2.1, body.declared_bare ▸ shaped.2.2⟩
  | .funDecl declaration, shaped => ⟨declaration.name_bare ▸ shaped.1, declaration.shaped_of_bare shaped.2⟩
  | .returnStmt _ _, shaped => Expr.shapedOption_of_bare shaped
  | .classDecl _ _ methods, shaped => ⟨shaped.1, FunctionDecl.shapedAll_of_bare methods shaped.2⟩

theorem Stmt.shapedAll_of_bare : ∀ body : List (Stmt ρ), Stmt.ShapedAll (Stmt.bareAll body) → Stmt.ShapedAll body
  | [], _ => trivial
  | first :: rest, shaped => ⟨first.shaped_of_bare shaped.1, Stmt.shapedAll_of_bare rest shaped.2⟩

theorem FunctionDecl.shaped_of_bare : ∀ declaration : FunctionDecl ρ, declaration.bare.Shaped → declaration.Shaped
  | .mk _ _ body, shaped => ⟨shaped.1, Stmt.shapedAll_of_bare body shaped.2⟩

theorem FunctionDecl.shapedAll_of_bare : ∀ methods : List (FunctionDecl ρ),
    FunctionDecl.ShapedAll (FunctionDecl.bareAll methods) → FunctionDecl.ShapedAll methods
  | [], _ => trivial
  | first :: rest, shaped => ⟨first.shaped_of_bare shaped.1, FunctionDecl.shapedAll_of_bare rest shaped.2⟩

end

end Shaped

/-- Binding keeps the tree, and gives every reference the note it has to have. -/
theorem Program.addressed_bind (known : List String) (program : Program Unit) :
    Stmt.bareAll (program.bind known).program = program ∧
      Node.Addressed {} (.sequence (program.bind known).program) := by
  have walks := Stmt.walksAll known {} {} (by simp [Inside]) program []
  obtain ⟨⟨same, addressed⟩, _⟩ := walks {} List.Forall₂.nil
  exact ⟨same, .plain rfl addressed⟩

theorem Program.bind_bare (known : List String) (program : Program ρ) :
    Program.bind known (Stmt.bareAll program) = program.bind known := by
  unfold Program.bind Binder.bind
  rw [Stmt.bindAll_bare]

/-- What is bound is bound again to itself. -/
theorem Program.bind_again (known : List String) (program : Program Unit) :
    (program.bind known).program.bind known = program.bind known := by
  rw [← Program.bind_bare known (program.bind known).program, (program.addressed_bind known).1]

/-- A name has one address. -/
theorem Place.Address.unique {place : Place} {name : String} {note note' : Distance} (address : place.Address name note)
    (address' : place.Address name note') : note = note' := by
  cases address with
  | free undeclared =>
    cases address' with
    | free => rfl
    | bound inner outer scope around declared _ => exact absurd declared (undeclared scope (by simp [around]))
  | bound inner outer scope around declared nearest =>
    cases address' with
    | free undeclared => exact absurd declared (undeclared scope (by simp [around]))
    | bound inner' outer' scope' around' declared' nearest' =>
      congr 1
      rw [around] at around'
      -- Neither of the two scopes is among those that are nearer than the other one.
      rcases List.append_eq_append_iff.mp around' with ⟨more, rfl, rest⟩ | ⟨more, rfl, rest⟩
      · cases more with
        | nil => simp
        | cons first more =>
          cases rest
          exact absurd declared (nearest' scope (by simp))
      · cases more with
        | nil => simp
        | cons first more =>
          cases rest
          exact absurd declared' (nearest scope' (by simp))

theorem Place.Fits.address {place : Place} {kind : ReferenceKind} {token : Token} {note : Distance}
    (fits : place.Fits kind token note) (other : kind ≠ .this) : place.Address token.lexeme note := by
  simpa [Place.Fits, other] using fits

/-- A node of a bound program: it breaks no rule, and if it is a reference it has the note it has to have. -/
structure Spot.Settled (known : List String) (spot : Spot Distance) : Prop where
  clean : spot.violations known = []
  fits : ∀ kind token note, spot.node.reference? = some (kind, token, note) → spot.place.Fits kind token note

/-- The nodes of a program that was bound without a fault. -/
theorem Program.settled_of_bind {known : List String} {program : Program Unit}
    (clean : (program.bind known).faults = []) :
    Spot.All (Spot.Settled known) { node := .sequence (program.bind known).program } := by
  have again : ((program.bind known).program.bind known).faults = [] := by rw [bind_again, clean]
  have none := ((program.bind known).program.tallies_bind known).eq_nil_iff.mp again
  have addressed := (program.addressed_bind known).2
  intro path spot found
  refine ⟨none path spot found, fun kind token note reference => ?_⟩
  exact addressed path spot.place spot.node kind token note (Spot.node_at? found) reference

end Lox
