import Lox.Proofs.Hollow.Runs
import Lox.Proofs.Run.Underway

/-!
What two runs that start on one machine, and of which the first one makes hollow frames, have in common for all that is
outside of them: whatever there was before, they leave the same, and nothing that is executed later can tell which of
the two it has been.
-/
namespace Lox

theorem Frames.Nested.lt_of_mem_chain {frames : Frames} {frame link : FrameId} (nested : frames.Nested)
    (present : frame < frames.all.size) (member : link ∈ frames.chain frame) : link < frames.all.size := by
  induction frame using Nat.strongRecOn with
  | _ frame ih =>
    by_cases isGlobal : frame = globalFrame
    · rw [isGlobal, nested.root, List.mem_singleton] at member
      exact member ▸ nested.sized
    · obtain ⟨enclosing, older, chain⟩ := nested.inside frame present isGlobal
      rw [chain, List.mem_cons] at member
      rcases member with rfl | further
      · exact present
      · exact ih enclosing older (Nat.lt_trans older present) further

/-- Two machines that were one and the same once, and show no difference in what there was then: the frame at hand, the
output, and the names that the frames of that time bind with their values. They have the same classes and instances, and
functions under the same numbers, those of that time among them. -/
structure Machine.SameSince (origin left right : Machine) : Prop where
  current : left.current = origin.current ∧ right.current = origin.current
  output : left.output = right.output
  now : left.now = right.now
  names : ∀ frame < origin.frames.all.size, left.frames.names frame = right.frames.names frame
  chains : ∀ frame < origin.frames.all.size, left.frames.chain frame = origin.frames.chain frame ∧
    right.frames.chain frame = origin.frames.chain frame
  functions : ∀ (id : FunctionId) (function : Function), origin.functions[id]? = some function →
    left.functions[id]? = some function ∧ right.functions[id]? = some function
  made : left.functions.size = right.functions.size
  classes : left.classes = right.classes
  instances : left.instances = right.instances

namespace Run

/-- Two ends with the same value, or with the same halt, on machines that show no difference. -/
inductive SameEnd {α : Type} (origin : Machine) : EStateM.Result Halt Machine α → EStateM.Result Halt Machine α → Prop
  | ok {value : α} {left right : Machine} (same : origin.SameSince left right) :
      SameEnd origin (.ok value left) (.ok value right)
  | error {halt : Halt} {left right : Machine} (same : origin.SameSince left right) :
      SameEnd origin (.error halt left) (.error halt right)

/-- Two actions that cannot be told apart. They end the same, and so does whatever is executed after them, even after a
halt, in a frame that there was before. Through the values that they have left there it may use all that is new. -/
structure Indistinguishable (action action' : Run Flow) (origin : Machine) : Prop where
  ends : SameEnd origin (action origin) (action' origin)
  afterwards : ∀ frame < origin.frames.all.size, ∀ (rest : List (Stmt Distance)) (limits : Limits),
    let next := within frame (sequence (exec .byDistance limits.rounds limits.room) rest)
    SameEnd origin (next (action.last origin)) (next (action'.last origin))

end Run

namespace Hollow

variable {machine : Machine} {frame frame' : FrameId}

/-- Two runs before they have started. Every frame is its own twin. -/
def Scene.start (machine : Machine) : Scene :=
  ⟨machine, machine, fun frame => if frame < machine.frames.all.size then some frame else none⟩

theorem Scene.twin_start :
    (start machine).twin frame = some frame' ↔ frame < machine.frames.all.size ∧ frame = frame' := by
  simp [start]

theorem Scene.stands_start (nested : machine.frames.Nested) (present : frame < machine.frames.all.size) :
    (start machine).twins.Stands none frame frame where
  present := present
  present' := present
  links distance := by
    rw [shift_none]
    cases linked : machine.frames.link? frame distance with
    | none => exact .inr ⟨linked, linked⟩
    | some link =>
      have older := nested.lt_of_mem_chain present (List.mem_of_getElem? linked)
      exact .inl ⟨link, link, linked, linked, twin_start.mpr ⟨older, rfl⟩⟩

/-- On a proper store whatever a function is closed over is there, so each function does what it does itself. -/
theorem Scene.agrees_start (proper : machine.Proper) : (start machine).Agrees := by
  have closed {id : FunctionId} {function : Function} (stored : machine.functions[id]? = some function) :
      (start machine).twins.Stands none function.closure function.closure :=
    stands_start proper.nested (proper.linked _ _ (.closure stored))
  have fetch {id : FunctionId} (there : id < machine.functions.size) :
      ∃ function, machine.functions[id]? = some function := ⟨_, Array.getElem?_eq_getElem there⟩
  have valid {value : Value} (there : ∀ object, value.object? = some object → machine.Has object) :
      (start machine).Valid value := by
    cases value with
    | function id =>
      obtain ⟨function, stored⟩ := fetch (there _ rfl)
      exact ⟨function, function, stored, stored, rfl, none, nofun, closed stored, matchFunction_self _⟩
    | _ => trivial
  refine ⟨⟨proper.nested.root, proper.nested.root, twin_start.mpr ⟨proper.nested.sized, rfl⟩, ?_, ?_, ?_⟩,
    rfl, rfl, rfl, rfl, rfl, ?_, ?_, ?_⟩
  · intro frame frame' twin
    obtain ⟨present, rfl⟩ := twin_start.mp twin
    exact ⟨present, present⟩
  · intro frame other frame' twin twin'
    exact (twin_start.mp twin).2.trans (twin_start.mp twin').2.symm
  · intro frame frame' twin
    obtain ⟨_, rfl⟩ := twin_start.mp twin
    rfl
  · exact fun frame _ name value _ held => valid fun object is => proper.linked _ _ (.bound held is)
  · exact fun id found name value stored held => valid fun object is => proper.linked _ _ (.field stored held is)
  · intro id found name method stored listed
    obtain ⟨function, held⟩ := fetch (proper.linked _ _ (.method stored listed))
    exact ⟨function, function, held, held, rfl, none, closed held, matchFunction_self _⟩

/-- Runs that agree show no difference in what there was at the start. -/
theorem Scene.Agrees.sameSince {after : Scene} (agrees : after.Agrees) (moved : (start machine).Step after) :
    machine.SameSince after.left after.right where
  current := ⟨moved.current, moved.current'⟩
  output := agrees.output
  now := agrees.now
  names _ older := agrees.twins.names (moved.twin (twin_start.mpr ⟨older, rfl⟩))
  chains _ older := ⟨moved.left.frames.chain _ older, moved.right.frames.chain _ older⟩
  functions id function stored := ⟨moved.left.functions id function stored, moved.right.functions id function stored⟩
  made := agrees.size
  classes := agrees.classes
  instances := agrees.instances

theorem Goes.sameEnd {scene : Scene} {action action' : Run Flow} (moved : (Scene.start machine).Step scene)
    (goes : Goes action action' scene Ends) :
    Run.SameEnd machine (action scene.left) (action' scene.right) := by
  obtain ⟨after, moved', agrees, ⟨flow, flow', ended, ended', ends, _⟩ | ⟨halt, ended, ended'⟩⟩ := goes
  · rw [ended, ended', ← ends]
    exact .ok (agrees.sameSince (moved.trans moved'))
  · rw [ended, ended']
    exact .error (agrees.sameSince (moved.trans moved'))

/-- What is executed later is the same for both runs, so that it goes alike as well. -/
theorem Goes.indistinguishable {action action' : Run Flow} (proper : machine.Proper)
    (goes : Goes action action' (Scene.start machine) Ends) : Run.Indistinguishable action action' machine := by
  refine ⟨goes.sameEnd (.refl _), fun frame older rest limits => ?_⟩
  obtain ⟨after, moved, agrees, ending⟩ := goes
  have left : action.last machine = after.left := by
    obtain ⟨_, _, ended, _⟩ | ⟨_, ended, _⟩ := ending
    · exact Run.last_of_ok ended
    · exact Run.last_of_error ended
  have right : action'.last machine = after.right := by
    obtain ⟨_, _, _, ended, _⟩ | ⟨_, _, ended⟩ := ending
    · exact Run.last_of_ok ended
    · exact Run.last_of_error ended
  rw [left, right]
  have stands : (after.enter frame frame).At none := (Scene.stands_start proper.nested older).mono moved.later
  have executes := (goes_alike limits.rounds limits.room).2
  have goes := goes_sequence executes (agrees.enter frame frame) stands (matchBody_self rest)
  exact (goes_within goes fun _ _ _ ends => ends).sameEnd moved

end Hollow

end Lox
