import Lox.Scope.Bindings

/-!
Places in a tree and what is declared there. A place is reached from the root by going from a node to one
of its parts, again and again; each step may open scopes around the part, and knows which names the scope
around has got from what stands before the part. Nothing here walks a tree in order or keeps a state.
-/
namespace Lox

variable {ρ : Type}

/-- The names that a statement adds to the scope it stands in. -/
def Stmt.declared : Stmt ρ → List String
  | .varDecl name _ => [name.lexeme]
  | .funDecl declaration => [declaration.name.lexeme]
  | .classDecl name _ _ => [name.lexeme]
  | .ifThen _ accepted => accepted.declared
  | .ifElse _ accepted rejected => rejected.declared ++ accepted.declared
  | .whileLoop _ body => body.declared
  | .expression _ | .print _ | .block _ | .returnStmt _ _ => []

/-- What can stand at a place. -/
inductive Node (ρ : Type) where
  | expr (expr : Expr ρ)
  | stmt (stmt : Stmt ρ)
  | function (declaration : FunctionDecl ρ)
  | sequence (body : List (Stmt ρ))

/-- From a node to a part of it: the names declared in the scope around before the part is reached, the
scopes opened around the part with the names they start with, innermost first, and whether the part is the
inside of a class. -/
structure Step where
  earlier : List String := []
  opened : List (List String) := []
  entersClass : Bool := false

/-- The scopes around a place, innermost first, each with the names declared in it at that point, and
whether the place is inside a class. -/
structure Place where
  scopes : List (List String) := []
  inClass : Bool := false

namespace Place

/-- Names are declared in the innermost scope. At the top level there is none to declare them in. -/
def declare (names : List String) : List (List String) → List (List String)
  | [] => []
  | scope :: outer => (names ++ scope) :: outer

def enter (place : Place) (step : Step) : Place :=
  ⟨step.opened ++ declare step.earlier place.scopes, place.inClass || step.entersClass⟩

/-- The lexical address of a name at a place: how many scopes lie between the place and the innermost scope
that declares the name, and none if no scope around declares it. -/
inductive Address (place : Place) (name : String) : Distance → Prop
  | bound (inner outer : List (List String)) (scope : List String)
      (around : place.scopes = inner ++ scope :: outer) (declared : name ∈ scope)
      (nearest : ∀ closer ∈ inner, name ∉ closer) : Address place name (some inner.length)
  | free (undeclared : ∀ scope ∈ place.scopes, name ∉ scope) : Address place name none

end Place

namespace Node

/-- The scopes of a class: the one with `this`, and around it, with a superclass, the one with `super`. -/
def classScopes (hasSuperclass : Bool) : List (List String) :=
  if hasSuperclass then [["this"], ["super"]] else [["this"]]

/-- Statements in a row: each one comes after the names that those before it declare. -/
def inOrder (earlier : List String) : List (Stmt ρ) → List (Step × Node ρ)
  | [] => []
  | first :: rest => ({ earlier }, .stmt first) :: inOrder (first.declared ++ earlier) rest

/-- An expression that may be missing. -/
def optional (step : Step) : Option (Expr ρ) → List (Step × Node ρ)
  | none => []
  | some value => [(step, .expr value)]

def exprParts : Expr ρ → List (Step × Node ρ)
  | .literal _ | .read _ _ | .this _ _ | .super _ _ _ => []
  | .grouping inner => [({}, .expr inner)]
  | .unary _ _ operand => [({}, .expr operand)]
  | .binary _ left _ right => [({}, .expr left), ({}, .expr right)]
  | .logical _ left _ right => [({}, .expr left), ({}, .expr right)]
  | .assign _ _ value => [({}, .expr value)]
  | .call callee _ arguments => ({}, .expr callee) :: arguments.map fun argument => ({}, .expr argument)
  | .get object _ => [({}, .expr object)]
  | .set object _ value => [({}, .expr object), ({}, .expr value)]

def stmtParts : Stmt ρ → List (Step × Node ρ)
  | .expression value => [({}, .expr value)]
  | .print value => [({}, .expr value)]
  | .varDecl name initial => optional { earlier := [name.lexeme] } initial
  | .block body => [({ opened := [[]] }, .sequence body)]
  | .ifThen condition accepted => [({}, .expr condition), ({}, .stmt accepted)]
  | .ifElse condition accepted rejected =>
    [({}, .expr condition), ({}, .stmt accepted), ({ earlier := accepted.declared }, .stmt rejected)]
  | .whileLoop condition body => [({}, .expr condition), ({}, .stmt body)]
  | .funDecl declaration => [({ earlier := [declaration.name.lexeme] }, .function declaration)]
  | .returnStmt _ value => optional {} value
  | .classDecl name superclass methods =>
    let outside : Step := { earlier := [name.lexeme] }
    let inside : Step := { outside with opened := classScopes superclass.isSome, entersClass := true }
    optional outside (superclass.map fun (superclass, note) => .read superclass note) ++
      methods.map fun method => (inside, .function method)

/-- The parts of a node, each with the step to it. A function has its parameters and its body in one
scope; a superclass is read outside the scopes of the class. -/
def parts : Node ρ → List (Step × Node ρ)
  | .expr inner => exprParts inner
  | .stmt inner => stmtParts inner
  | .function (.mk _ params body) => [({ opened := [params.map Token.lexeme] }, .sequence body)]
  | .sequence body => inOrder [] body

/-- The place and the node that a path of part numbers leads to. -/
def at? (place : Place) (node : Node ρ) : List Nat → Option (Place × Node ρ)
  | [] => some (place, node)
  | number :: path =>
    match node.parts[number]? with
    | none => none
    | some (step, part) => part.at? (place.enter step) path

/-- The node as a reference to a name: its kind, the token that names it, and its note. -/
def reference? : Node ρ → Option (ReferenceKind × Token × ρ)
  | .expr (.read name note) => some (.read, name, note)
  | .expr (.assign name note _) => some (.assign, name, note)
  | .expr (.this keyword note) => some (.this, keyword, note)
  | .expr (.super keyword note _) => some (.super, keyword, note)
  | _ => none

end Node

end Lox
