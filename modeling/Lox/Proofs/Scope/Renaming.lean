import Lox.Proofs.Run.Renaming
import Lox.Proofs.Scope.Rebinding

/-!
Giving a variable of a program another name. All that changes in the tree is the declaration of the variable and
the references whose distance leads to its scope. The new tree is bound to itself, and matches the old one.
-/
namespace Lox

section Names

variable {ρ : Type}

mutual

/-- The variables that an expression refers to. -/
def Expr.names : Expr ρ → List String
  | .literal _ | .this _ _ | .super _ _ _ => []
  | .grouping inner => inner.names
  | .unary _ _ operand => operand.names
  | .binary _ left _ right | .logical _ left _ right => left.names ++ right.names
  | .read name _ => [name.lexeme]
  | .assign name _ value => name.lexeme :: value.names
  | .call callee _ arguments => callee.names ++ Expr.namesAll arguments
  | .get object _ => object.names
  | .set object _ value => object.names ++ value.names

def Expr.namesAll : List (Expr ρ) → List String
  | [] => []
  | first :: rest => first.names ++ Expr.namesAll rest

end

def Expr.namesOption : Option (Expr ρ) → List String
  | none => []
  | some value => value.names

mutual

/-- The variables that occur in a statement, where they are declared and where they are referred to. -/
def Stmt.names : Stmt ρ → List String
  | .expression value | .print value => value.names
  | .varDecl name initial => name.lexeme :: Expr.namesOption initial
  | .block body => Stmt.namesAll body
  | .ifThen condition accepted => condition.names ++ accepted.names
  | .ifElse condition accepted rejected => condition.names ++ accepted.names ++ rejected.names
  | .whileLoop condition body => condition.names ++ body.names
  | .funDecl declaration => declaration.name.lexeme :: declaration.names
  | .returnStmt _ value => Expr.namesOption value
  | .classDecl name superclass methods =>
    name.lexeme :: (superclass.toList.map fun (parent, _) => parent.lexeme) ++ FunctionDecl.namesAll methods

def Stmt.namesAll : List (Stmt ρ) → List String
  | [] => []
  | first :: rest => first.names ++ Stmt.namesAll rest

def FunctionDecl.names : FunctionDecl ρ → List String
  | .mk _ params body => params.map Token.lexeme ++ Stmt.namesAll body

def FunctionDecl.namesAll : List (FunctionDecl ρ) → List String
  | [] => []
  | first :: rest => first.names ++ FunctionDecl.namesAll rest

end

end Names

namespace Renaming

section Trees

variable (naming : Renaming)

/-- What a name is called. The scope with the variable is at the distance `mark`, if the place is inside of it;
`note` is the distance of the scope that the name belongs to. -/
def call (mark : Option Nat) (note : Distance) (name : String) : String :=
  match mark with
  | none => name
  | some depth => if note = some depth then naming.swap name else name

def token (mark : Option Nat) (note : Distance) (token : Token) : Token :=
  { token with lexeme := naming.call mark note token.lexeme }

mutual

/-- The references that lead to the scope with the variable are changed. -/
def ofExpr (mark : Option Nat) : Expr Distance → Expr Distance
  | .literal value => .literal value
  | .grouping inner => .grouping (ofExpr mark inner)
  | .unary op sign operand => .unary op sign (ofExpr mark operand)
  | .binary op left sign right => .binary op (ofExpr mark left) sign (ofExpr mark right)
  | .logical op left sign right => .logical op (ofExpr mark left) sign (ofExpr mark right)
  | .read name note => .read (naming.token mark note name) note
  | .assign name note value => .assign (naming.token mark note name) note (ofExpr mark value)
  | .call callee paren arguments => .call (ofExpr mark callee) paren (ofExprs mark arguments)
  | .get object name => .get (ofExpr mark object) name
  | .set object name value => .set (ofExpr mark object) name (ofExpr mark value)
  | .this keyword note => .this keyword note
  | .super keyword note method => .super keyword note method

def ofExprs (mark : Option Nat) : List (Expr Distance) → List (Expr Distance)
  | [] => []
  | first :: rest => ofExpr mark first :: ofExprs mark rest

end

/-- From a place into a scope with some parameters and statements. This may be a scope with the variable: then it
has that as a parameter or declares it, and the new name occurs nowhere in it. -/
inductive Enters (params : List Token) (body : List (Stmt Distance)) : Option Nat → Option Nat → Prop
  | outside : Enters params body none none
  | further (depth : Nat) : Enters params body (some depth) (some (depth + 1))
  | here (declared : (∃ param ∈ params, param.lexeme = naming.old) ∨
        ∃ name initial, Stmt.varDecl name initial ∈ body ∧ name.lexeme = naming.old)
      (fresh : naming.new ∉ params.map Token.lexeme ++ Stmt.namesAll body) : Enters params body none (some 0)

mutual

/-- A statement with the new name. A declaration belongs to the scope that it stands in. -/
inductive OfStmt : Option Nat → Stmt Distance → Stmt Distance → Prop
  | expression {mark} (value : Expr Distance) : OfStmt mark (.expression value) (.expression (naming.ofExpr mark value))
  | print {mark} (value : Expr Distance) : OfStmt mark (.print value) (.print (naming.ofExpr mark value))
  | varDecl {mark} (name : Token) (initial : Option (Expr Distance)) :
      OfStmt mark (.varDecl name initial) (.varDecl (naming.token mark (some 0) name) (initial.map (naming.ofExpr mark)))
  | block {mark inside body body'} (enters : naming.Enters [] body mark inside) (parts : OfBody inside body body') :
      OfStmt mark (.block body) (.block body')
  | ifThen {mark accepted accepted'} (condition : Expr Distance) (part : OfStmt mark accepted accepted') :
      OfStmt mark (.ifThen condition accepted) (.ifThen (naming.ofExpr mark condition) accepted')
  | ifElse {mark accepted accepted' rejected rejected'} (condition : Expr Distance)
      (first : OfStmt mark accepted accepted') (second : OfStmt mark rejected rejected') :
      OfStmt mark (.ifElse condition accepted rejected) (.ifElse (naming.ofExpr mark condition) accepted' rejected')
  | whileLoop {mark body body'} (condition : Expr Distance) (part : OfStmt mark body body') :
      OfStmt mark (.whileLoop condition body) (.whileLoop (naming.ofExpr mark condition) body')
  | funDecl {mark declaration declaration'} (part : OfFunction mark declaration declaration') :
      OfStmt mark (.funDecl declaration) (.funDecl declaration')
  | returnStmt {mark} (keyword : Token) (value : Option (Expr Distance)) :
      OfStmt mark (.returnStmt keyword value) (.returnStmt keyword (value.map (naming.ofExpr mark)))
  | classDecl {mark methods methods'} (name : Token) (superclass : Option (Token × Distance))
      (parts : OfMethods (mark.map (· + (Node.classScopes superclass.isSome).length)) methods methods') :
      OfStmt mark (.classDecl name superclass methods)
        (.classDecl name (superclass.map fun (parent, note) => (naming.token mark note parent, note)) methods')

inductive OfBody : Option Nat → List (Stmt Distance) → List (Stmt Distance) → Prop
  | nil {mark} : OfBody mark [] []
  | cons {mark first first' rest rest'} (head : OfStmt mark first first') (tail : OfBody mark rest rest') :
      OfBody mark (first :: rest) (first' :: rest')

inductive OfFunction : Option Nat → FunctionDecl Distance → FunctionDecl Distance → Prop
  | mk {mark inside params body body'} (name : Token) (enters : naming.Enters params body mark inside)
      (parts : OfBody inside body body') :
      OfFunction mark (.mk name params body) (.mk name (params.map (naming.token inside (some 0))) body')

inductive OfMethods : Option Nat → List (FunctionDecl Distance) → List (FunctionDecl Distance) → Prop
  | nil {mark} : OfMethods mark [] []
  | cons {mark first first' rest rest'} (head : OfFunction mark first first') (tail : OfMethods mark rest rest') :
      OfMethods mark (first :: rest) (first' :: rest')

end

/-- A program in which the variable of a scope has the new name. -/
def Renames (program program' : BoundProgram) : Prop := naming.OfBody none program program'

end Trees

section Reflexive

variable {naming : Renaming}

mutual

theorem ofExpr_none : ∀ expr : Expr Distance, naming.ofExpr none expr = expr
  | .literal _ | .read _ _ | .this _ _ | .super _ _ _ => rfl
  | .grouping inner => by rw [ofExpr, ofExpr_none inner]
  | .unary _ _ operand => by rw [ofExpr, ofExpr_none operand]
  | .binary _ left _ right => by rw [ofExpr, ofExpr_none left, ofExpr_none right]
  | .logical _ left _ right => by rw [ofExpr, ofExpr_none left, ofExpr_none right]
  | .assign name _ value => by rw [ofExpr, ofExpr_none value]; rfl
  | .call callee _ arguments => by rw [ofExpr, ofExpr_none callee, ofExprs_none arguments]
  | .get object _ => by rw [ofExpr, ofExpr_none object]
  | .set object _ value => by rw [ofExpr, ofExpr_none object, ofExpr_none value]

theorem ofExprs_none : ∀ exprs : List (Expr Distance), naming.ofExprs none exprs = exprs
  | [] => rfl
  | first :: rest => by rw [ofExprs, ofExpr_none first, ofExprs_none rest]

end

theorem map_ofExpr_none (value : Option (Expr Distance)) : value.map (naming.ofExpr none) = value := by
  cases value with
  | none => rfl
  | some value => rw [Option.map_some, ofExpr_none]

mutual

/-- Nothing needs to be changed. -/
theorem OfStmt.refl : ∀ stmt : Stmt Distance, naming.OfStmt none stmt stmt
  | .expression value => by
    have same : naming.OfStmt none (.expression value) (.expression (naming.ofExpr none value)) := .expression value
    rwa [ofExpr_none] at same
  | .print value => by
    have same : naming.OfStmt none (.print value) (.print (naming.ofExpr none value)) := .print value
    rwa [ofExpr_none] at same
  | .varDecl name initial => by
    have same : naming.OfStmt none (.varDecl name initial) (.varDecl name (initial.map (naming.ofExpr none))) :=
      .varDecl name initial
    rwa [map_ofExpr_none] at same
  | .block body => .block .outside (OfBody.refl body)
  | .ifThen condition accepted => by
    have same : naming.OfStmt none _ (.ifThen (naming.ofExpr none condition) accepted) :=
      .ifThen condition (OfStmt.refl accepted)
    rwa [ofExpr_none] at same
  | .ifElse condition accepted rejected => by
    have same : naming.OfStmt none _ (.ifElse (naming.ofExpr none condition) accepted rejected) :=
      .ifElse condition (OfStmt.refl accepted) (OfStmt.refl rejected)
    rwa [ofExpr_none] at same
  | .whileLoop condition body => by
    have same : naming.OfStmt none _ (.whileLoop (naming.ofExpr none condition) body) :=
      .whileLoop condition (OfStmt.refl body)
    rwa [ofExpr_none] at same
  | .funDecl declaration => .funDecl (OfFunction.refl declaration)
  | .returnStmt keyword value => by
    have same : naming.OfStmt none _ (.returnStmt keyword (value.map (naming.ofExpr none))) := .returnStmt keyword value
    rwa [map_ofExpr_none] at same
  | .classDecl name superclass methods => by
    have same : naming.OfStmt none (.classDecl name superclass methods)
        (.classDecl name (superclass.map fun (parent, note) => (naming.token none note parent, note)) methods) :=
      .classDecl name superclass (OfMethods.refl methods)
    have kept : (superclass.map fun (parent, note) => (naming.token none note parent, note)) = superclass := by
      cases superclass <;> rfl
    rwa [kept] at same

theorem OfBody.refl : ∀ body : List (Stmt Distance), naming.OfBody none body body
  | [] => .nil
  | first :: rest => .cons (OfStmt.refl first) (OfBody.refl rest)

theorem OfFunction.refl : ∀ declaration : FunctionDecl Distance, naming.OfFunction none declaration declaration
  | .mk name params body => by
    have same : naming.OfFunction none (.mk name params body)
        (.mk name (params.map (naming.token none (some 0))) body) := .mk name .outside (OfBody.refl body)
    have kept : params.map (naming.token none (some 0)) = params := List.map_id' params
    rwa [kept] at same

theorem OfMethods.refl : ∀ methods : List (FunctionDecl Distance), naming.OfMethods none methods methods
  | [] => .nil
  | first :: rest => .cons (OfFunction.refl first) (OfMethods.refl rest)

end

end Reflexive

end Renaming

end Lox
