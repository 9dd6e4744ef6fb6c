import Lox.Store
import Lox.Text.Styled

/-!
The machine that runs programs: a store, the frame at hand, and the output so far. An action on it ends
with a value or halts, and in both cases leaves the machine as it then is.
-/
namespace Lox

/-- What can go wrong in a running program. -/
inductive RuntimeFault where
  | undefinedVariable (name : String)
  | undefinedProperty (name : String)
  | operandNotNumber
  | operandsNotAddable
  | notCallable
  | wrongArity (expected given : Nat)
  | propertyOfNoInstance
  | fieldOfNoInstance
  | superclassNotClass
  | stackOverflow
  deriving DecidableEq, Repr

namespace RuntimeFault

/-- The message; the parts that depend on the program stand out. -/
def message : RuntimeFault → Text.Styled
  | undefinedVariable name => [.plain "Undefined variable '", .bold name, .plain "'."]
  | undefinedProperty name => [.plain "Undefined property '", .bold name, .plain "'."]
  | operandNotNumber => [.plain "Operand must be a number."]
  | operandsNotAddable => [.plain "Operands must be two numbers or two strings."]
  | notCallable => [.plain "Can only call functions and classes."]
  | wrongArity expected given =>
    [.plain "Expected ", .bold (toString expected), .plain " arguments but got ", .bold (toString given),
     .plain "."]
  | propertyOfNoInstance => [.plain "Only instances have properties."]
  | fieldOfNoInstance => [.plain "Only instances have fields."]
  | superclassNotClass => [.plain "Superclass must be a class."]
  | stackOverflow => [.plain "Stack overflow."]

end RuntimeFault

/-- What no bound program meets: a reference that leads nowhere, or to something of the wrong sort. -/
inductive Defect where
  | missing (what : Missing)
  | unboundSuper
  | superNotClass
  | thisNotInstance
  | danglingObject
  | returnOutsideFunction
  deriving DecidableEq, Repr

/-- Why a run came to a halt before its end. -/
inductive Halt where
  | fault (fault : Located RuntimeFault)
  | tooDeep
  | unfinished
  | defect (cause : Defect)

structure Machine extends Store where
  current : FrameId := globalFrame
  output : String := ""
  /-- The time of day, as a run sees it. -/
  now : Float := 0

abbrev Run := EStateM Halt Machine

namespace Machine

/-- A machine that has run nothing yet. -/
def initial : Machine := { Store.initial with }

/-- The machine after a run that has halted. The top level catches faults, and puts the global frame at hand then. All
other halts leave the machine alone. -/
def caught (machine : Machine) : Halt → Machine
  | .fault _ => { machine with current := globalFrame }
  | _ => machine

variable {machine : Machine}

@[simp]
theorem toStore_caught (halt : Halt) : (machine.caught halt).toStore = machine.toStore := by cases halt <;> rfl

/-- Where the global frame is at hand anyway, there is nothing to put right. -/
theorem caught_eq_self (current : machine.current = globalFrame) (halt : Halt) : machine.caught halt = machine := by
  cases halt with
  | fault fault => rw [caught, ← current]
  | _ => rfl

end Machine

namespace Run

variable {α : Type}

def fail (token : Token) (cause : RuntimeFault) : Run α := throw (.fault ⟨cause, token⟩)

def broken (cause : Defect) : Run α := throw (.defect cause)

/-- Looks at the machine. -/
@[noinline]
def reading (view : Machine → α) : Run α := fun machine => .ok (view machine) machine

def print (text : String) : Run Unit := fun ⟨store, current, output, now⟩ =>
  .ok () ⟨store, current, output ++ text, now⟩

/-- Runs an action that only changes the store. -/
def onStore (action : Store → α × Store) : Run α := fun ⟨store, current, output, now⟩ =>
  let (result, store) := action store
  .ok result ⟨store, current, output, now⟩

/-- Runs an action that only changes the frames. -/
def onFrames (action : Frames → α × Frames) : Run α :=
  onStore fun ⟨frames, functions, classes, instances⟩ =>
    let (result, frames) := action frames
    (result, ⟨frames, functions, classes, instances⟩)

/-- Binds a name in the frame at hand. -/
def define (name : String) (value : Value) : Run Unit := do
  let frame ← reading Machine.current
  onFrames fun frames => ((), frames.define frame name value)

/-- Runs an action with another frame at hand. However the action ends, the frame from before is at hand
again. -/
def within (frame : FrameId) (action : Run α) : Run α := fun ⟨store, current, output, now⟩ =>
  match action ⟨store, frame, output, now⟩ with
  | .ok result after => .ok result { after with current }
  | .error halt after => .error halt { after with current }

/-- Puts a frame at hand for whatever comes next. Nothing but a further move takes it away again. -/
def moveTo (frame : FrameId) : Run Unit := fun ⟨store, _, output, now⟩ => .ok () ⟨store, frame, output, now⟩

/-- Runs a call. Where it nests too deep, the call is at fault. -/
def asCall (paren : Token) (action : Run α) : Run α := fun machine =>
  match action machine with
  | .error .tooDeep after => .error (.fault ⟨.stackOverflow, paren⟩) after
  | result => result

/-- Repeats a step until it has a result, for a number of rounds at most. -/
def iterate (step : Run (Option α)) : Nat → Run α
  | 0, machine => .error .unfinished machine
  | rounds + 1, machine =>
    match step machine with
    | .ok none after => iterate step rounds after
    | .ok (some result) after => .ok result after
    | .error halt after => .error halt after

def function (id : FunctionId) : Run Function := do
  match ← reading fun machine => machine.functions[id]? with
  | some function => return function
  | none => broken .danglingObject

def instanceOf (id : InstanceId) : Run Instance := do
  match ← reading fun machine => machine.instances[id]? with
  | some found => return found
  | none => broken .danglingObject

/-- A method bound to an instance. -/
def bindMethod (method : FunctionId) (receiver : InstanceId) : Run FunctionId := do
  let method ← function method
  onStore (·.bindMethod method receiver)

end Run

end Lox
