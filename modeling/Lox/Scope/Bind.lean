import Lox.Scope
import Lox.Tree

/-!
Binding a tree: every reference gets the number of scopes between it and the scope of its name, or no
number if no scope declares the name there. The walk follows the order of execution, over a stack of scopes
in the place of live frames, and finds the faults that need no run.
-/
namespace Lox

/-- The note of a bound reference. -/
abbrev Distance := Option Nat

/-- A tree whose references know their scopes. -/
abbrev BoundProgram := Program Distance

variable {ρ : Type}

mutual

def Expr.bind (around : Surrounding) : Expr ρ → Bind (Expr Distance)
  | .literal value => return .literal value
  | .grouping inner => return .grouping (← inner.bind around)
  | .unary op sign operand => return .unary op sign (← operand.bind around)
  | .binary op left sign right => do
    let left ← left.bind around
    return .binary op left sign (← right.bind around)
  | .logical op left sign right => do
    let left ← left.bind around
    return .logical op left sign (← right.bind around)
  | .read name _ => return .read name (← Bind.readName name)
  | .assign name _ value => do
    let value ← value.bind around
    return .assign name (← Bind.distance? name) value
  | .call callee paren arguments => do
    let callee ← callee.bind around
    return .call callee paren (← Expr.bindAll around arguments)
  | .get object name => return .get (← object.bind around) name
  | .set object name value => do
    let value ← value.bind around
    return .set (← object.bind around) name value
  | .this keyword _ => do
    if around.owner = .none then
      Bind.complain keyword .thisOutsideClass
      return .this keyword none
    return .this keyword (← Bind.distance? keyword)
  | .super keyword _ method => do
    match around.owner with
    | .none => Bind.complain keyword .superOutsideClass
    | .plain => Bind.complain keyword .superWithoutSuperclass
    | .subclass => pure ()
    return .super keyword (← Bind.distance? keyword) method

def Expr.bindAll (around : Surrounding) : List (Expr ρ) → Bind (List (Expr Distance))
  | [] => return []
  | first :: rest => do
    let first ← first.bind around
    return first :: (← Expr.bindAll around rest)

end

/-- An expression that may be missing. -/
def Expr.bindOption (around : Surrounding) : Option (Expr ρ) → Bind (Option (Expr Distance))
  | none => return none
  | some value => return some (← value.bind around)

/-- The superclass of a class: its name is read, and must not be that of the class. -/
def Bind.superclass (name : Token) : Option (Token × ρ) → Bind (Option (Token × Distance))
  | none => return none
  | some (superclass, _) => do
    if superclass.lexeme = name.lexeme then complain superclass .inheritsFromItself
    return some (superclass, ← readName superclass)

/-- The methods of a class stand in a scope with `this`, and that one, if there is a superclass, in a scope
with `super`. -/
def Bind.inClassScopes {α : Type} (hasSuperclass : Bool) (action : Bind α) : Bind α :=
  if hasSuperclass then inScope ["super"] (inScope ["this"] action) else inScope ["this"] action

mutual

def Stmt.bind (known : List String) (around : Surrounding) : Stmt ρ → Bind (Stmt Distance)
  | .expression value => return .expression (← value.bind around)
  | .print value => return .print (← value.bind around)
  | .varDecl name initial => do
    modify (·.declare known name)
    let initial ← Expr.bindOption around initial
    modify (·.define name)
    return .varDecl name initial
  | .block body => return .block (← Bind.inScope [] (Stmt.bindAll known around body))
  | .ifThen condition accepted => do
    let condition ← condition.bind around
    return .ifThen condition (← accepted.bind known around)
  | .ifElse condition accepted rejected => do
    let condition ← condition.bind around
    let accepted ← accepted.bind known around
    return .ifElse condition accepted (← rejected.bind known around)
  | .whileLoop condition body => do
    let condition ← condition.bind around
    return .whileLoop condition (← body.bind known around)
  | .funDecl declaration => do
    Bind.introduce known declaration.name
    return .funDecl (← declaration.bind known { around with function := .function })
  | .returnStmt keyword value => do
    if around.function = .none then Bind.complain keyword .returnOutsideFunction
    if value.isSome && around.function = .initializer then
      Bind.complain keyword .returnValueFromInitializer
    return .returnStmt keyword (← Expr.bindOption around value)
  | .classDecl name superclass methods => do
    Bind.introduce known name
    let superclass ← Bind.superclass name superclass
    let inside := { around with owner := if superclass.isSome then .subclass else .plain }
    return .classDecl name superclass
      (← Bind.inClassScopes superclass.isSome (FunctionDecl.bindMethods known inside methods))

def Stmt.bindAll (known : List String) (around : Surrounding) : List (Stmt ρ) → Bind (List (Stmt Distance))
  | [] => return []
  | first :: rest => do
    let first ← first.bind known around
    return first :: (← Stmt.bindAll known around rest)

/-- A function body, with its parameters in one scope. -/
def FunctionDecl.bind (known : List String) (around : Surrounding) :
    FunctionDecl ρ → Bind (FunctionDecl Distance)
  | .mk name params body => do
    let body ← Bind.inScope [] do
      params.forM (Bind.introduce known)
      Stmt.bindAll known around body
    return .mk name params body

def FunctionDecl.bindMethods (known : List String) (around : Surrounding) :
    List (FunctionDecl ρ) → Bind (List (FunctionDecl Distance))
  | [] => return []
  | first :: rest => do
    let inside := { around with function := FunctionContext.ofMethod first.name.lexeme }
    let first ← first.bind known inside
    return first :: (← FunctionDecl.bindMethods known around rest)

end

/-- Walks a program from a given state; `known` are the global names that exist already. -/
def Binder.bind (known : List String) (program : Program ρ) (binder : Binder) : BoundProgram × Binder :=
  (Stmt.bindAll known {} program).run binder

/-- A bound program and the faults found in it. -/
structure Bound where
  program : BoundProgram
  faults : List (Located ScopeFault)

/-- Binds a program where the given global names exist. -/
def Program.bind (known : List String) (program : Program ρ) : Bound :=
  let (bound, binder) := Binder.bind known program {}
  ⟨bound, binder.faults.toList⟩

end Lox
