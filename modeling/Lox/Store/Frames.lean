import Lox.Table
import Lox.Value

/-!
Frames: the live counterpart of scopes. A frame binds names to values and knows the frames around it,
nearest first. Frames are only ever added, so that one lives as long as anything refers to it, and the links
between them never change.
-/
namespace Lox

structure Frame where
  names : Table Value := .empty
  outer : List FrameId := []
  deriving Repr, Inhabited

structure Frames where
  all : Array Frame := #[]
  deriving Repr, Inhabited

/-- Where a walk outward ends: at a frame, right outside the outermost one, or nowhere. -/
inductive Climb where
  | at (frame : FrameId)
  | outside
  | beyond
  deriving DecidableEq, Repr

/-- Why there is nothing to be found at a distance. -/
inductive Missing where
  | frame
  | name
  deriving DecidableEq, Repr

namespace Frames

/-- The frame itself and those around it, nearest first. -/
def chain (frames : Frames) (frame : FrameId) : List FrameId :=
  match frames.all[frame]? with
  | none => []
  | some found => frame :: found.outer

/-- The names bound in one frame. -/
def names (frames : Frames) (frame : FrameId) : Table Value :=
  match frames.all[frame]? with
  | none => .empty
  | some found => found.names

/-- A new frame with nothing bound. -/
def create (frames : Frames) (enclosing : Option FrameId) : FrameId × Frames :=
  let outer := match enclosing with
    | none => []
    | some frame => frames.chain frame
  (frames.all.size, ⟨frames.all.push ⟨.empty, outer⟩⟩)

/-- Binds a name in one frame, anew or over an earlier value. -/
def define (frames : Frames) (frame : FrameId) (name : String) (value : Value) : Frames :=
  ⟨frames.all.modify frame fun found => { found with names := found.names.set name value }⟩

/-- The nearest frame of a chain that binds a name. -/
def holder? (frames : Frames) (frame : FrameId) (name : String) : Option FrameId :=
  (frames.chain frame).find? fun link => (frames.names link).contains name

/-- The value of a name in the nearest frame that binds it. -/
def lookup? (frames : Frames) (frame : FrameId) (name : String) : Option Value := do
  (frames.names (← frames.holder? frame name)).get? name

/-- Changes the value of a name in the nearest frame that binds it; never binds a name anew. -/
def assign? (frames : Frames) (frame : FrameId) (name : String) (value : Value) : Option Frames := do
  return frames.define (← frames.holder? frame name) name value

/-- The frame at a distance. -/
def link? (frames : Frames) (frame : FrameId) (distance : Nat) : Option FrameId :=
  (frames.chain frame)[distance]?

/-- Walks outward over a number of links. -/
def climb (frames : Frames) (frame : FrameId) (distance : Nat) : Climb :=
  match frames.link? frame distance with
  | some found => .at found
  | none => if distance = (frames.chain frame).length then .outside else .beyond

/-- The value of a name in the frame at a distance, and in no other. -/
def getAt (frames : Frames) (frame : FrameId) (distance : Nat) (name : String) : Except Missing Value :=
  match frames.link? frame distance with
  | none => .error .frame
  | some found =>
    match (frames.names found).get? name with
    | none => .error .name
    | some value => .ok value

/-- Binds a name in the frame at a distance. -/
def setAt? (frames : Frames) (frame : FrameId) (distance : Nat) (name : String) (value : Value) :
    Option Frames := do
  return frames.define (← frames.link? frame distance) name value

/-- A summary of one frame: how many frames are around it, and its names. -/
def describe (frames : Frames) (frame : FrameId) : String :=
  let depth := (frames.chain frame).length - 1
  let names := Text.quotedList (frames.names frame).names
  s!"Environment(depth={depth}, names={names})"

/-- Binding a name moves no frame. -/
@[simp]
theorem chain_define (frames : Frames) (frame other : FrameId) (name : String) (value : Value) :
    (frames.define frame name value).chain other = frames.chain other := by
  simp only [chain, define, Array.getElem?_modify]
  by_cases same : frame = other
  · subst same
    cases found : frames.all[frame]? <;> simp
  · simp [same]

/-- Binding a name sets it in the one frame, provided that exists. -/
theorem names_define_self (frames : Frames) {frame : FrameId} (present : frame < frames.all.size)
    (name : String) (value : Value) :
    (frames.define frame name value).names frame = (frames.names frame).set name value := by
  simp [names, define, Array.getElem?_modify, Array.getElem?_eq_getElem present]

/-- Binding a name leaves every other frame as it is. -/
theorem names_define_of_ne (frames : Frames) {frame other : FrameId} (distinct : frame ≠ other)
    (name : String) (value : Value) : (frames.define frame name value).names other = frames.names other := by
  simp [names, define, Array.getElem?_modify, distinct]

/-- A new frame leaves the links of the others as they are. -/
theorem chain_create_of_lt (frames : Frames) (enclosing : Option FrameId) {frame : FrameId}
    (older : frame < frames.all.size) : (frames.create enclosing).2.chain frame = frames.chain frame := by
  simp [chain, create, Array.getElem?_push, Nat.ne_of_lt older]

/-- The chain of a new frame is the frame before the chain that it was made in. -/
theorem chain_create_self (frames : Frames) (enclosing : FrameId) :
    (frames.create (some enclosing)).2.chain (frames.create (some enclosing)).1 =
      frames.all.size :: frames.chain enclosing := by
  simp [chain, create]

end Frames

end Lox
