import Lox.Run.Access
import Lox.Run.Operator

/-!
Evaluating expressions and executing statements. `room` bounds the nesting, calls included: each expression
and statement that is entered takes one level of it. `rounds` bounds the rounds of every loop. All other
recursion follows the tree.
-/
namespace Lox

/-- How a statement ends, if it does not halt the run: on to the next statement, or out of the function
around it with a value. -/
inductive Flow where
  | next
  | returned (value : Value)

namespace Run

/-- Evaluates expressions from left to right. -/
def values (eval : Expr Distance → Run Value) : List (Expr Distance) → Run (List Value)
  | [] => return []
  | first :: rest => do
    let value ← eval first
    return value :: (← values eval rest)

/-- Executes statements in order, up to one that returns. -/
def sequence (exec : Stmt Distance → Run Flow) : List (Stmt Distance) → Run Flow
  | [] => return .next
  | first :: rest => do
    match ← exec first with
    | .next => sequence exec rest
    | .returned value => return .returned value

/-- Executes statements in a frame of their own inside the given one. -/
def block (exec : Stmt Distance → Run Flow) (enclosing : FrameId) (bindings : List (String × Value))
    (body : List (Stmt Distance)) : Run Flow := do
  let frame ← onFrames fun frames =>
    let (frame, frames) := frames.create (some enclosing)
    (frame, bindings.foldl (fun frames (name, value) => frames.define frame name value) frames)
  within frame (sequence exec body)

/-- Calls a function: its body runs in a frame inside its closure, with the parameters bound. An
initialiser answers the instance it is bound to, however it ends. -/
def activate (exec : Stmt Distance → Run Flow) (function : Function) (arguments : List Value) :
    Run Value := do
  let names := function.declaration.params.map Token.lexeme
  let flow ← block exec function.closure (names.zip arguments) function.declaration.body
  if function.isInitializer then
    match ← reading fun machine => machine.frames.getAt function.closure 0 "this" with
    | .ok value => return value
    | .error cause => broken (.missing cause)
  else
    match flow with
    | .next => return .nil
    | .returned value => return value

/-- Number of arguments that a value takes when it is called, if it can be called. -/
def arity? : Value → Run (Option Nat)
  | .native native => return some native.arity
  | .function id => return some (← reading fun machine => machine.functionArity id)
  | .class id => return some (← reading fun machine => machine.classArity id)
  | _ => return none

/-- Makes an instance and runs the initialiser of its class, if there is one. -/
def instantiate (exec : Stmt Distance → Run Flow) (id : ClassId) (arguments : List Value) : Run Value := do
  let made ← onStore (·.addInstance id)
  match ← reading fun machine => machine.findMethod? id initializerName with
  | none => return .instance made
  | some method =>
    let bound ← bindMethod method made
    let _ ← activate exec (← function bound) arguments
    return .instance made

/-- Calls a value with the right number of arguments. -/
def invoke (exec : Stmt Distance → Run Flow) (paren : Token) (arguments : List Value) : Value → Run Value
  | .native .clock => return .number (← reading Machine.now)
  | .function id => do activate exec (← function id) arguments
  | .class id => instantiate exec id arguments
  | _ => fail paren .notCallable

/-- Calls a value, if it can be called with the given arguments. -/
def call (exec : Stmt Distance → Run Flow) (paren : Token) (callee : Value) (arguments : List Value) :
    Run Value := do
  match ← arity? callee with
  | none => fail paren .notCallable
  | some arity =>
    if arguments.length ≠ arity then fail paren (.wrongArity arity arguments.length)
    else asCall paren (invoke exec paren arguments callee)

/-- A property of an instance. Fields hide methods, and a method comes bound to the instance. -/
def property (id : InstanceId) (name : Token) : Run Value := do
  let found ← instanceOf id
  match found.fields.get? name.lexeme with
  | some value => return value
  | none =>
    match ← reading fun machine => machine.findMethod? found.owner name.lexeme with
    | some method => return .function (← bindMethod method id)
    | none => fail name (.undefinedProperty name.lexeme)

/-- A method of the superclass, bound to the instance at hand. -/
def superMethod (method : Token) : Value × Value → Run Value
  | (.class parent, .instance receiver) => do
    match ← reading fun machine => machine.findMethod? parent method.lexeme with
    | some found => return .function (← bindMethod found receiver)
    | none => fail method (.undefinedProperty method.lexeme)
  | (.class _, _) => broken .thisNotInstance
  | _ => broken .superNotClass

/-- Makes the methods of a class, closed over the frame at hand. Of two with one name the later one counts. -/
def makeMethods : List (FunctionDecl Distance) → Table FunctionId → Run (Table FunctionId)
  | [], table => return table
  | first :: rest, table => do
    let closure ← reading Machine.current
    let name := first.name.lexeme
    let id ← onStore (·.addFunction ⟨first, closure, name = initializerName⟩)
    makeMethods rest (table.set name id)

/-- The class that a class declaration names as its superclass. -/
def superclass (access : Access) : Option (Token × Distance) → Run (Option ClassId)
  | none => return none
  | some (name, distance) => do
    match ← access.read name distance with
    | .class id => return some id
    | _ => fail name .superclassNotClass

/-- For the methods of a subclass, puts a new frame at hand inside the one that is, and binds `super` there. -/
def enterSuper : Option ClassId → Run Unit
  | none => return
  | some parent => do
    let enclosing ← reading Machine.current
    moveTo (← onFrames fun frames => frames.create (some enclosing))
    define "super" (.class parent)

/-- Declares a class. Its name is bound before its methods are made, and to the class afterwards. While they are made
another frame may be at hand, which is not guarded: a halt in between would leave it there. -/
def declareClass (access : Access) (name : Token) (parent : Option (Token × Distance))
    (methods : List (FunctionDecl Distance)) : Run Unit := do
  let parent ← superclass access parent
  define name.lexeme .nil
  let enclosing ← reading Machine.current
  enterSuper parent
  let table ← makeMethods methods .empty
  let id ← onStore fun store => store.addClass ⟨name.lexeme, (parent.map store.lineage).getD [], table⟩
  moveTo enclosing
  Access.assignFrom Machine.current name (.class id)

mutual

def eval (access : Access) (rounds : Nat) : Nat → Expr Distance → Run Value
  | 0, _ => throw .tooDeep
  | _ + 1, .literal value => return .ofLiteral value
  | room + 1, .grouping inner => eval access rounds room inner
  | room + 1, .unary op sign operand => do
    op.apply sign (← eval access rounds room operand)
  | room + 1, .binary op left sign right => do
    let left ← eval access rounds room left
    op.apply sign left (← eval access rounds room right)
  | room + 1, .logical op left _ right => do
    let left ← eval access rounds room left
    if op.decidedBy left then return left
    eval access rounds room right
  | _ + 1, .read name distance => access.read name distance
  | room + 1, .assign name distance value => do
    let value ← eval access rounds room value
    access.assign name distance value
    return value
  | room + 1, .call callee paren arguments => do
    let callee ← eval access rounds room callee
    let arguments ← values (eval access rounds room) arguments
    call (exec access rounds room) paren callee arguments
  | room + 1, .get object name => do
    match ← eval access rounds room object with
    | .instance id => property id name
    | _ => fail name .propertyOfNoInstance
  | room + 1, .set object name value => do
    match ← eval access rounds room object with
    | .instance id =>
      let value ← eval access rounds room value
      onStore fun store => ((), store.setField id name.lexeme value)
      return value
    | _ => fail name .fieldOfNoInstance
  | _ + 1, .this keyword distance => access.read keyword distance
  | _ + 1, .super keyword distance method => do
    superMethod method (← access.superAndThis keyword distance)

def exec (access : Access) (rounds : Nat) : Nat → Stmt Distance → Run Flow
  | 0, _ => throw .tooDeep
  | room + 1, .expression value => do
    let _ ← eval access rounds room value
    return .next
  | room + 1, .print value => do
    let value ← eval access rounds room value
    print ((← reading fun machine => machine.shown value) ++ "\n")
    return .next
  | _ + 1, .varDecl name none => do
    define name.lexeme .nil
    return .next
  | room + 1, .varDecl name (some initial) => do
    define name.lexeme (← eval access rounds room initial)
    return .next
  | room + 1, .block body => do
    block (exec access rounds room) (← reading Machine.current) [] body
  | room + 1, .ifThen condition accepted => do
    if (← eval access rounds room condition).isTruthy then exec access rounds room accepted
    else return .next
  | room + 1, .ifElse condition accepted rejected => do
    if (← eval access rounds room condition).isTruthy then exec access rounds room accepted
    else exec access rounds room rejected
  | room + 1, .whileLoop condition body =>
    iterate (do
      if (← eval access rounds room condition).isTruthy then
        match ← exec access rounds room body with
        | .next => return none
        | .returned value => return some (.returned value)
      else return some .next) rounds
  | _ + 1, .funDecl declaration => do
    let closure ← reading Machine.current
    define declaration.name.lexeme (.function (← onStore (·.addFunction ⟨declaration, closure, false⟩)))
    return .next
  | _ + 1, .returnStmt _ none => return .returned .nil
  | room + 1, .returnStmt _ (some value) => return .returned (← eval access rounds room value)
  | _ + 1, .classDecl name superclass methods => do
    declareClass access name superclass methods
    return .next

end

end Run

/-- Bounds on a run. -/
structure Limits where
  room : Nat
  rounds : Nat

/-- Executes a program at the top level. A return that no function is left by has no place there. -/
def Run.program (access : Access) (limits : Limits) (program : BoundProgram) : Run Unit := do
  match ← Run.sequence (Run.exec access limits.rounds limits.room) program with
  | .next => return
  | .returned _ => Run.broken .returnOutsideFunction

end Lox
