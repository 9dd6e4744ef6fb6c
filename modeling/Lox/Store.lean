import Lox.Scope.Bind
import Lox.Store.Frames

/-!
The store of a running program: frames, functions, classes and instances, each known by its number. Objects
are added and never taken away; only the bindings of frames and the fields of instances change.
-/
namespace Lox

/-- A function declaration with the frame it was declared in. Initialisers answer the instance they are
bound to. -/
structure Function where
  declaration : FunctionDecl Distance
  closure : FrameId
  isInitializer : Bool := false

/-- A class, with its superclasses nearest first. -/
structure Class where
  name : String
  ancestors : List ClassId
  methods : Table FunctionId

/-- An instance. A field comes into being when it is first set. -/
structure Instance where
  owner : ClassId
  fields : Table Value := .empty

structure Store where
  frames : Frames := {}
  functions : Array Function := #[]
  classes : Array Class := #[]
  instances : Array Instance := #[]

/-- The outermost frame of every chain. -/
def globalFrame : FrameId := 0

namespace Store

/-- The store in which a session starts: one frame, with the native functions. -/
def initial : Store :=
  let (frame, frames) := Frames.create {} none
  { frames := Native.all.foldl (fun frames native => frames.define frame native.name (.native native)) frames }

def addFunction : Store → Function → FunctionId × Store
  | ⟨frames, functions, classes, instances⟩, function =>
    (functions.size, ⟨frames, functions.push function, classes, instances⟩)

def addClass : Store → Class → ClassId × Store
  | ⟨frames, functions, classes, instances⟩, definition =>
    (classes.size, ⟨frames, functions, classes.push definition, instances⟩)

/-- A new instance, without fields. -/
def addInstance : Store → ClassId → InstanceId × Store
  | ⟨frames, functions, classes, instances⟩, owner =>
    (instances.size, ⟨frames, functions, classes, instances.push { owner }⟩)

/-- A class and its superclasses, nearest first. -/
def lineage (store : Store) (id : ClassId) : List ClassId :=
  match store.classes[id]? with
  | none => []
  | some found => id :: found.ancestors

def superclass? (store : Store) (id : ClassId) : Option ClassId := do
  (← store.classes[id]?).ancestors.head?

/-- The method of a name in the nearest class of the lineage that defines it. -/
def findMethod? (store : Store) (id : ClassId) (name : String) : Option FunctionId :=
  (store.lineage id).findSome? fun link => do (← store.classes[link]?).methods.get? name

/-- Sets a field of an instance, anew or over an earlier value. -/
def setField : Store → InstanceId → String → Value → Store
  | ⟨frames, functions, classes, instances⟩, id, name, value =>
    ⟨frames, functions, classes, instances.modify id fun ⟨owner, fields⟩ => ⟨owner, fields.set name value⟩⟩

/-- A copy of a method that is bound to an instance: a function of its own, closed over a frame that binds
`this`. -/
def bindMethod : Store → Function → InstanceId → FunctionId × Store
  | ⟨frames, functions, classes, instances⟩, method, receiver =>
    let (frame, frames) := frames.create (some method.closure)
    let frames := frames.define frame "this" (.instance receiver)
    addFunction ⟨frames, functions, classes, instances⟩ { method with closure := frame }

/-- Number of arguments a function takes. -/
def functionArity (store : Store) (id : FunctionId) : Nat :=
  match store.functions[id]? with
  | none => 0
  | some function => function.declaration.params.length

def functionName (store : Store) (id : FunctionId) : String :=
  match store.functions[id]? with
  | none => ""
  | some function => function.declaration.name.lexeme

def className (store : Store) (id : ClassId) : String :=
  match store.classes[id]? with
  | none => ""
  | some found => found.name

/-- A class takes the arguments of its initialiser. -/
def classArity (store : Store) (id : ClassId) : Nat :=
  match store.findMethod? id initializerName with
  | none => 0
  | some method => store.functionArity method

/-- What `print` shows of a value. -/
def shown (store : Store) : Value → String
  | .nil => "nil"
  | .bool value => if value then "true" else "false"
  | .number value => Number.shown value
  | .string text => text
  | .native _ => "<native fn>"
  | .function id => "<fn " ++ store.functionName id ++ ">"
  | .class id => store.className id
  | .instance id =>
    match store.instances[id]? with
    | none => ""
    | some found => store.className found.owner ++ " instance"

/-- A summary of a value for the listing of a session's globals. -/
def summary (store : Store) : Value → String
  | .nil => "None"
  | .bool value => if value then "True" else "False"
  | .number value => Number.exact value
  | .string text => Text.quoted text
  | .native native => s!"NativeFunction({Text.quoted native.name}, arity={native.arity})"
  | .function id =>
    s!"LoxFunction({Text.quoted (store.functionName id)}, arity={store.functionArity id})"
  | .class id =>
    let methods := match store.classes[id]? with
      | none => []
      | some found => found.methods.names
    let superclass := match store.superclass? id with
      | none => ""
      | some found => " < " ++ store.className found
    s!"LoxClass({store.className id}{superclass}, methods={Text.quotedList methods})"
  | .instance id =>
    match store.instances[id]? with
    | none => ""
    | some found =>
      s!"LoxInstance({store.className found.owner}, fields={Text.quotedList found.fields.names})"

/-- Two stores with the same classes and instances show a value alike, provided that they call a function alike. -/
theorem shown_congr {store store' : Store} (classes : store.classes = store'.classes)
    (instances : store.instances = store'.instances) {value : Value}
    (named : ∀ id, value = .function id → store.functionName id = store'.functionName id) :
    store.shown value = store'.shown value := by
  cases value with
  | function id => simp only [shown, named id rfl]
  | «class» id => simp only [shown, className, classes]
  | «instance» id => simp only [shown, className, classes, instances]
  | _ => rfl

end Store

end Lox
