import Lox.Table
import Lox.Token

/-!
Scopes, as they stand while a tree is walked: which names are declared so far, and which of them are still
being initialised. Names at the top level belong to no scope; they are looked up when the program runs.
-/
namespace Lox

/-- What can be wrong with the use of a name or of a keyword that needs a surrounding. -/
inductive ScopeFault where
  | readsLocalInInitializer
  | readsGlobalInInitializer
  | alreadyDeclared
  | returnOutsideFunction
  | returnValueFromInitializer
  | thisOutsideClass
  | superOutsideClass
  | superWithoutSuperclass
  | inheritsFromItself
  deriving DecidableEq, Repr

def ScopeFault.message : ScopeFault → String
  | readsLocalInInitializer => "Can't read local variable in its own initializer."
  | readsGlobalInInitializer => "Can't read global variable in its own initializer."
  | alreadyDeclared => "Already a variable with this name in this scope."
  | returnOutsideFunction => "Can't return from top-level code."
  | returnValueFromInitializer => "Can't return a value from an initializer."
  | thisOutsideClass => "Can't use 'this' outside of a class."
  | superOutsideClass => "Can't use 'super' outside of a class."
  | superWithoutSuperclass => "Can't use 'super' in a class with no superclass."
  | inheritsFromItself => "A class can't inherit from itself."

/-- The names of a scope, each with whether its initialiser is finished. -/
abbrev Scope := Table Bool

/-- The nearest function around a place. -/
inductive FunctionContext where
  | none | function | method | initializer
  deriving DecidableEq, Repr

/-- The nearest class around a place. -/
inductive ClassContext where
  | none | plain | subclass
  deriving DecidableEq, Repr

/-- What surrounds a place in a tree. -/
structure Surrounding where
  function : FunctionContext := .none
  owner : ClassContext := .none
  deriving DecidableEq, Repr

/-- The name of the method that initialises an instance. -/
def initializerName : String := "init"

/-- Methods of that name are initialisers. -/
def FunctionContext.ofMethod (name : String) : FunctionContext :=
  if name = initializerName then .initializer else .method

/-- The state of a walk: the open scopes, innermost first, the top-level names declared so far, the one
whose first initialiser is being walked, and the faults found. -/
structure Binder where
  scopes : List Scope := []
  declared : List String := []
  pending : Option String := none
  faults : Array (Located ScopeFault) := #[]

/-- Walks a tree. -/
abbrev Bind := StateM Binder

namespace Binder

/-- Number of scopes between the innermost one and the first one that declares `name`. -/
def distance? (binder : Binder) (name : String) : Option Nat :=
  binder.scopes.findIdx? (·.contains name)

def complain (binder : Binder) (token : Token) (cause : ScopeFault) : Binder :=
  { binder with faults := binder.faults.push ⟨cause, token⟩ }

/-- Opens a scope in which some names are declared from the start. -/
def openScope (binder : Binder) (names : List String) : Binder :=
  { binder with scopes := names.foldl (fun scope name => scope.set name true) Table.empty :: binder.scopes }

def closeScope (binder : Binder) : Binder := { binder with scopes := binder.scopes.tail }

/-- Declares a name as not yet initialised. At the top level only a name that is new is followed up, since
the initialiser of another one may read its earlier value. -/
def declare (known : List String) (binder : Binder) (name : Token) : Binder :=
  match binder.scopes with
  | [] =>
    if binder.declared.contains name.lexeme || known.contains name.lexeme then binder
    else { binder with pending := some name.lexeme }
  | scope :: outer =>
    let binder := if scope.contains name.lexeme then binder.complain name .alreadyDeclared else binder
    { binder with scopes := scope.set name.lexeme false :: outer }

/-- Marks a name as initialised. -/
def define (binder : Binder) (name : Token) : Binder :=
  match binder.scopes with
  | [] => { binder with declared := name.lexeme :: binder.declared, pending := none }
  | scope :: outer => { binder with scopes := scope.set name.lexeme true :: outer }

/-- The fault in reading a name at this point, if there is one. -/
def readFault? (binder : Binder) (name : Token) : Option ScopeFault :=
  match binder.scopes with
  | [] => if binder.pending = some name.lexeme then some .readsGlobalInInitializer else none
  | scope :: _ => if scope.get? name.lexeme = some false then some .readsLocalInInitializer else none

end Binder

namespace Bind

def complain (token : Token) (cause : ScopeFault) : Bind Unit := modify (·.complain token cause)

def distance? (name : Token) : Bind (Option Nat) := return (← get).distance? name.lexeme

/-- Walks something inside a scope of its own. -/
def inScope {α : Type} (names : List String) (action : Bind α) : Bind α := do
  modify (·.openScope names)
  let result ← action
  modify Binder.closeScope
  return result

/-- Declares a name that needs no initialiser. -/
def introduce (known : List String) (name : Token) : Bind Unit :=
  modify fun binder => (binder.declare known name).define name

/-- Reading a name: its distance, with a complaint if it is still being initialised. -/
def readName (name : Token) : Bind (Option Nat) := do
  if let some cause := (← get).readFault? name then complain name cause
  distance? name

end Bind

end Lox
