import Lox.Scope.Bind

/-!
The bindings of a tree as a list: which reference leads how many scopes out, in the order in which binding
finds them.
-/
namespace Lox

/-- The expressions that refer to a name. -/
inductive ReferenceKind where
  | read | assign | this | super
  deriving DecidableEq, Repr

structure Binding where
  kind : ReferenceKind
  token : Token
  distance : Nat
  deriving Repr

/-- The binding of a reference, if it has one. -/
def Binding.of (kind : ReferenceKind) (token : Token) (distance : Distance) : List Binding :=
  distance.toList.map fun count => ⟨kind, token, count⟩

mutual

def Expr.bindings : Expr Distance → List Binding
  | .literal _ => []
  | .grouping inner => inner.bindings
  | .unary _ _ operand => operand.bindings
  | .binary _ left _ right => left.bindings ++ right.bindings
  | .logical _ left _ right => left.bindings ++ right.bindings
  | .read name note => Binding.of .read name note
  | .assign name note value => value.bindings ++ Binding.of .assign name note
  | .call callee _ arguments => callee.bindings ++ Expr.bindingsAll arguments
  | .get object _ => object.bindings
  | .set object _ value => value.bindings ++ object.bindings
  | .this keyword note => Binding.of .this keyword note
  | .super keyword note _ => Binding.of .super keyword note

def Expr.bindingsAll : List (Expr Distance) → List Binding
  | [] => []
  | first :: rest => first.bindings ++ Expr.bindingsAll rest

end

/-- The bindings of an expression that may be missing. -/
def Expr.bindingsOption : Option (Expr Distance) → List Binding
  | none => []
  | some value => value.bindings

mutual

def Stmt.bindings : Stmt Distance → List Binding
  | .expression value => value.bindings
  | .print value => value.bindings
  | .varDecl _ initial => Expr.bindingsOption initial
  | .block body => Stmt.bindingsAll body
  | .ifThen condition accepted => condition.bindings ++ accepted.bindings
  | .ifElse condition accepted rejected =>
    condition.bindings ++ (accepted.bindings ++ rejected.bindings)
  | .whileLoop condition body => condition.bindings ++ body.bindings
  | .funDecl declaration => declaration.bindings
  | .returnStmt _ value => Expr.bindingsOption value
  | .classDecl _ superclass methods =>
    (match superclass with
      | none => []
      | some (name, note) => Binding.of .read name note) ++ FunctionDecl.bindingsAll methods

def Stmt.bindingsAll : List (Stmt Distance) → List Binding
  | [] => []
  | first :: rest => first.bindings ++ Stmt.bindingsAll rest

def FunctionDecl.bindings : FunctionDecl Distance → List Binding
  | .mk _ _ body => Stmt.bindingsAll body

def FunctionDecl.bindingsAll : List (FunctionDecl Distance) → List Binding
  | [] => []
  | first :: rest => first.bindings ++ FunctionDecl.bindingsAll rest

end

/-- The bindings of a program. -/
def Program.bindings (program : BoundProgram) : List Binding := Stmt.bindingsAll program

end Lox
