import Lox.Proofs.Pairing.Actions
import Lox.Proofs.Run.Endings

/-!
Two runs side by side, moment by moment. Whatever the first run sets about is prepared for on both sides, and the
store that it leaves comes to be the one at the end of what it is a part of.
-/
namespace Lox

namespace Pairing

variable {pairing : Pairing} {α β : Type} {rounds : Nat}

/-- A store of the first run, and one that comes later. -/
def Becomes (pairing : Pairing) : Store → Store → Prop :=
  Relation.ReflTransGen fun store after => ∃ world later mirror mirror',
    pairing.State world store mirror ∧ pairing.State later after mirror' ∧ pairing.Later world later

/-- What is known about a task before it is set about: the tree it is about corresponds to another one where the
frame at hand stands, and the values are valid. -/
def Scene.Prepared (scene : pairing.Scene) : Task → Prop
  | .evaluate _ expr => ∃ around expr', scene.At around ∧ pairing.MatchExpr around expr expr'
  | .evaluateAll _ exprs => ∃ around exprs', scene.At around ∧ pairing.MatchExprs around exprs exprs'
  | .execute _ stmt => ∃ around next stmt', scene.At around ∧ pairing.MatchStmt around next stmt stmt'
  | .executeAll _ body => ∃ around next body', scene.At around ∧ pairing.MatchBody around next body body'
  | .loop _ _ condition body => ∃ around condition' body', scene.At around ∧
      pairing.MatchExpr around condition condition' ∧ pairing.MatchStmt around around body body'
  | .read name note => ∃ around reference', scene.At around ∧ pairing.Reads around (name, note) reference'
  | .assign name note value => ∃ around reference', scene.At around ∧
      pairing.Assigns around (name, note) reference' ∧ scene.Valid value
  | .superAndThis note => ∃ around keyword method reference', scene.At around ∧
      pairing.Supers around ((keyword, note), method) reference'
  | .call _ callee arguments => scene.Valid callee ∧ ∀ value ∈ arguments, scene.Valid value
  | .activate _ function arguments => (∃ (id : FunctionId) (function' : Function), scene.left.functions[id]? = some function ∧
        scene.right.functions[id]? = some function' ∧ pairing.Callable scene.world function function') ∧
      (∀ value ∈ arguments, scene.Valid value) ∧ arguments.length = function.declaration.params.length

/-- The invariant of the first run: a second one goes along with it. -/
def Ready (pairing : Pairing) (moment : Moment) : Prop :=
  ∃ scene : pairing.Scene, scene.left = moment.machine ∧ scene.Agrees ∧ scene.Prepared moment.task

theorem Scene.Agrees.ready {scene : pairing.Scene} (agrees : scene.Agrees) {task : Task} (prepared : scene.Prepared task) :
    pairing.Ready ⟨task, scene.left⟩ := ⟨scene, rfl, agrees, prepared⟩

/-- Two actions go alike, and the moments that the first one comes by are prepared for and lead up to its end. -/
structure Passes (rounds : Nat) (action action' : Run α) (scene : pairing.Scene) (Visits : Moment → Prop)
    (P : α → pairing.Scene → Prop) : Prop where
  goes : Goes action action' scene P
  visits : ∀ part, Visits part → pairing.Ready part ∧
    pairing.Becomes (part.last rounds).toStore (action.last scene.left).toStore

variable {scene : pairing.Scene} {action action' : Run α} {rest rest' : α → Run β} {P : α → pairing.Scene → Prop}
  {Q : β → pairing.Scene → Prop} {Visits : Moment → Prop}

/-- However it ends, an action leaves a later store. -/
theorem Goes.becomes (goes : Goes action action' scene P) (agrees : scene.Agrees) :
    pairing.Becomes scene.left.toStore (action.last scene.left).toStore := by
  obtain ⟨after, moved, agrees', ending⟩ := goes
  have same : action.last scene.left = after.left := by
    obtain ⟨value, ended, _⟩ | ⟨halt, _, ended, _⟩ := ending
    · exact Run.last_of_ok ended
    · exact Run.last_of_error ended
  rw [same]
  exact .single ⟨_, _, _, _, agrees.state, agrees'.state, moved.world⟩

section Rules

variable {task : Task}

/-- An action that comes by nothing. -/
theorem Goes.unvisited (goes : Goes action action' scene P) (none : ∀ part, ¬ Visits part) :
    Passes rounds action action' scene Visits P :=
  ⟨goes, fun part visited => absurd visited (none part)⟩

/-- An action that comes by what it ends with. -/
theorem Goes.ending (goes : Goes action action' scene P) (ready : ∀ part, Visits part → pairing.Ready part)
    (ends : ∀ part, Visits part → (part.last rounds).toStore = (action.last scene.left).toStore) :
    Passes rounds action action' scene Visits P where
  goes := goes
  visits part visited := by
    rw [ends part visited]
    exact ⟨ready part visited, .refl⟩

/-- An action that is a task. -/
theorem Goes.visit (goes : Goes action action' scene P) (agrees : scene.Agrees) (prepared : scene.Prepared task)
    (same : Moment.last rounds ⟨task, scene.left⟩ = action.last scene.left) :
    Passes rounds action action' scene (· = ⟨task, scene.left⟩) P := by
  apply goes.ending
  · rintro _ rfl
    exact agrees.ready prepared
  · rintro _ rfl
    rw [same]

/-- An action that starts with a look at the machine. -/
theorem Goes.look (goes : Goes action action' scene P) (agrees : scene.Agrees) (prepared : scene.Prepared task)
    (still : Moment.last rounds ⟨task, scene.left⟩ = scene.left) :
    Passes rounds action action' scene (· = ⟨task, scene.left⟩) P where
  goes := goes
  visits := by
    rintro _ rfl
    rw [still]
    exact ⟨agrees.ready prepared, goes.becomes agrees⟩

namespace Passes

/-- What comes last comes by nothing. -/
theorem andThen (lawful : pairing.Lawful) (passes : Passes rounds action action' scene Visits P)
    (then_ : ∀ value after, scene.Step after → after.Agrees → P value after →
      Goes (rest value) (rest' value) after Q) :
    Passes rounds (action >>= rest) (action' >>= rest') scene Visits Q where
  goes := passes.goes.bind lawful then_
  visits part visited := by
    obtain ⟨ready, becomes⟩ := passes.visits part visited
    refine ⟨ready, becomes.trans ?_⟩
    obtain ⟨after, moved, agrees, ⟨value, ended, _, holds⟩ | ⟨halt, _, ended, _⟩⟩ := passes.goes
    · rw [Run.last_of_ok ended, Run.last_bind_of_ok ended]
      exact (then_ value after moved agrees holds).becomes agrees
    · rw [Run.last_of_error ended, Run.last_bind_of_error ended]

/-- What comes after an action may come by one more task. -/
theorem bind (lawful : pairing.Lawful) {task? : α → Option Task} (passes : Passes rounds action action' scene Visits P)
    (then_ : ∀ value after, scene.Step after → after.Agrees → P value after →
      Passes rounds (rest value) (rest' value) after
        (fun part => part.machine = after.left ∧ task? value = some part.task) Q) :
    Passes rounds (action >>= rest) (action' >>= rest') scene
      (fun part => Visits part ∨ action.Leaves scene.left task? part) Q where
  goes := passes.goes.bind lawful fun value after moved agrees holds => (then_ value after moved agrees holds).goes
  visits part visited := by
    rcases visited with earlier | ⟨value, ended, isLeft⟩
    · exact (passes.andThen lawful fun value after moved agrees holds =>
        (then_ value after moved agrees holds).goes).visits part earlier
    · obtain ⟨after, same, moved, agrees, holds⟩ := passes.goes.of_ok ended
      rw [Run.last_bind_of_ok ended, ← same]
      exact (then_ value after moved agrees holds).visits part ⟨same.symm, isLeft⟩

/-- What an action comes by, as the task that an earlier one leaves. -/
theorem next (passes : Passes rounds action action' scene (· = ⟨task, scene.left⟩) P) :
    Passes rounds action action' scene (fun part => part.machine = scene.left ∧ some task = some part.task) P where
  goes := passes.goes
  visits := by
    rintro ⟨_, _⟩ ⟨rfl, isLeft⟩
    cases isLeft
    exact passes.visits _ rfl

theorem weaken {Visits' : Moment → Prop} (passes : Passes rounds action action' scene Visits P)
    (implies : ∀ part, Visits' part → Visits part) : Passes rounds action action' scene Visits' P :=
  ⟨passes.goes, fun part visited => passes.visits part (implies part visited)⟩

end Passes

/-- An action that an earlier one leaves no task for. -/
theorem Goes.done (goes : Goes action action' scene P) :
    Passes rounds action action' scene (fun part => part.machine = scene.left ∧ none = some part.task) P :=
  goes.unvisited (by simp)

end Rules

end Pairing

end Lox
