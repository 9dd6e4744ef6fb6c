import Lox.Machine

/-!
How a running program gets at the names it refers to. Sessions use the distances that binding has found.
Walking outward from the frame at hand is the plainer rule, which needs no distances.
-/
namespace Lox

/-- A way to read and to assign names, and to find the class that `super` stands for together with the
instance at hand. -/
structure Access where
  read : Token → Distance → Run Value
  assign : Token → Distance → Value → Run Unit
  superAndThis : Token → Distance → Run (Value × Value)

namespace Access

/-- Reads a name in a frame or around it. -/
def readFrom (frame : Machine → FrameId) (name : Token) : Run Value := do
  match ← Run.reading fun machine => machine.frames.lookup? (frame machine) name.lexeme with
  | some value => return value
  | none => Run.fail name (.undefinedVariable name.lexeme)

/-- Assigns a name in a frame or around it. -/
def assignFrom (frame : Machine → FrameId) (name : Token) (value : Value) : Run Unit := do
  match ← Run.reading fun machine => machine.frames.holder? (frame machine) name.lexeme with
  | some holder => Run.onFrames fun frames => ((), frames.define holder name.lexeme value)
  | none => Run.fail name (.undefinedVariable name.lexeme)

/-- Reads a name in the frame at a distance. -/
def readAt (distance : Nat) (name : String) : Run Value := do
  match ← Run.reading fun machine => machine.frames.getAt machine.current distance name with
  | .ok value => return value
  | .error cause => Run.broken (.missing cause)

/-- Assigns a name in the frame at a distance. -/
def assignAt (distance : Nat) (name : String) (value : Value) : Run Unit := do
  match ← Run.reading fun machine => machine.frames.link? machine.current distance with
  | some frame => Run.onFrames fun frames => ((), frames.define frame name value)
  | none => Run.broken (.missing .frame)

/-- References with a distance are looked for in the frame at that distance, all others in the global
frame. The frame with `this` is the one right inside that with `super`. -/
def byDistance : Access where
  read
    | name, some distance => readAt distance name.lexeme
    | name, none => readFrom (fun _ => globalFrame) name
  assign
    | name, some distance, value => assignAt distance name.lexeme value
    | name, none, value => assignFrom (fun _ => globalFrame) name value
  superAndThis
    | _, some distance => do
      let parent ← readAt distance "super"
      return (parent, ← readAt (distance - 1) "this")
    | _, none => Run.broken .unboundSuper

/-- Every name is looked for outward from the frame at hand. -/
def byChain : Access where
  read name _ := readFrom Machine.current name
  assign name _ value := assignFrom Machine.current name value
  superAndThis keyword _ := do
    let parent ← readFrom Machine.current keyword
    return (parent, ← readFrom Machine.current { keyword with lexeme := "this" })

end Access

end Lox
