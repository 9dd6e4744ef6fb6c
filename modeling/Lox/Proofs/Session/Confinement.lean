import Lox.Proofs.Run.Underway
import Lox.Proofs.Session.Receivers

/-!
Frames and objects over whole sessions. At every moment of every run, whatever is evaluated or executed then gives the
frame at hand back, and touches only what can be got at from there or from the global frame. So what a function has
bound for itself, and nothing else leads to, is its own.
-/
namespace Lox

open Machine Run

/-- At the start there is the global frame, and the names bound there lead to no objects. -/
theorem Store.proper_initial : Store.initial.Proper where
  nested := by
    refine ⟨rfl, fun frame present inner => ?_⟩
    have first : frame < 1 := present
    exact absurd (Nat.lt_one_iff.mp first) inner
  lineages id found stored := by simp [Store.initial] at stored
  linked holder object refers := by
    cases refers with
    | @enclosing frame link linked =>
      cases frame <;> cases linked
    | bound held is =>
      obtain ⟨_, rfl⟩ := eq_clock_of_initial held
      cases is
    | superclass inherits => cases inherits
    | closure stored | method stored _ | owner stored | field stored _ _ => simp [Store.initial] at stored

/-- The value that a statement ends with, if it does. -/
def Flow.value? : Flow → Option Value
  | .next => none
  | .returned value => some value

namespace Session

variable {session : Session} {text : String} {program : BoundProgram} {limits : Limits} {moment : Moment}

/-- What a session executes starts on its own ground. -/
theorem underway_of_proper (proper : session.machine.Proper) (current : session.machine.current = globalFrame) :
    session.machine.Underway session.machine := by
  refine underway_self proper ?_
  rw [current]
  exact proper.nested.sized

/-- Between the runs of a session frames are nested and nothing leads to what is not there. -/
theorem Reachable.proper (reachable : session.Reachable) : session.machine.Proper := by
  induction reachable with
  | start opened =>
    rw [machine_of_start opened]
    exact Store.proper_initial
  | atTime _ _ ih => exact ih
  | @run session earlier text ih =>
    rcases session.run_cases text with same | ⟨program, dump, accepted⟩
    · rwa [same]
    · have keeping := (stays_on_ground session.machine runLimits.rounds runLimits.room).2
      have runs : Stays session.machine (sequence (exec .byDistance runLimits.rounds runLimits.room) program)
          session.machine (Returns session.machine) :=
        stays_sequence keeping (underway_of_proper ih earlier.sound.current)
      rw [toStore_run dump accepted]
      exact runs.last.underway.proper

/-- Whatever a run comes by is in the course of it. -/
theorem Comes.underway_start (comes : session.Comes limits program moment) (reachable : session.Reachable) :
    session.machine.Underway moment.machine := by
  have start : Moment.Underway session.machine ⟨.executeAll limits.room program, session.machine⟩ :=
    ⟨underway_of_proper reachable.proper reachable.sound.current, trivial⟩
  exact (start.run comes).machine

/-- At each moment something may start anew. -/
theorem Comes.underway (comes : session.Comes limits program moment) (reachable : session.Reachable) :
    moment.machine.Underway moment.machine := by
  have later := comes.underway_start reachable
  exact underway_self later.proper later.inside.2

/-- The frame at hand comes back. After the run of any text, and already where the statements of a program have ended,
it is the global frame. At every moment of the run of a program, be it bound without a fault or not, whatever is
evaluated or executed then leaves the frame at hand and the links and names of all frames as they were, however it
ends. -/
theorem runs_restore_frames (session : Session) (reachable : session.Reachable) :
    (∀ text, (session.run text).2.machine.current = globalFrame) ∧
      ∀ program limits, ((Run.program .byDistance limits program).last session.machine).current = globalFrame ∧
        ∀ moment, session.Comes limits program moment → ∀ rounds room,
          (∀ expr, (eval .byDistance rounds room expr).Restores moment.machine) ∧
          ∀ stmt, (exec .byDistance rounds room stmt).Restores moment.machine := by
  refine ⟨fun text => (reachable.run text).sound.current,
    fun program limits => ⟨?_, fun moment comes rounds room => ?_⟩⟩
  · have current := reachable.sound.current
    have keeping := (stays_on_ground session.machine limits.rounds limits.room).2
    have runs : Stays session.machine (sequence (exec .byDistance limits.rounds limits.room) program)
        session.machine (Returns session.machine) :=
      stays_sequence keeping (underway_of_proper reachable.proper current)
    rw [last_program]
    exact runs.last.current.trans current
  · have underway := comes.underway reachable
    obtain ⟨finding, keeping⟩ := stays_on_ground moment.machine rounds room
    exact ⟨fun expr => (finding underway).restores, fun stmt => (keeping underway).restores⟩

/-- A program that is one block. -/
def isBlock : Option BoundProgram → Bool
  | some [.block _] => true
  | _ => false

/-- In a block of a run that follows one that has failed in a block. -/
theorem runs_restore_frames_in_block :
    let first : Session := { reporter := {}, path := "a.lox", interactive := false }
    let session := (first.run "{ nil(); }").2
    let machine := session.machine.inside globalFrame []
    (session.run "{ var a = 1; }").2.machine.current = globalFrame ∧
      ∃ program body, session.accepted? "{ var a = 1; }" = some program ∧
        session.Comes ⟨2, 0⟩ program ⟨.executeAll 1 body, machine⟩ ∧ machine.current = 2 ∧
        ∀ rounds room stmt, (exec .byDistance rounds room stmt).Restores machine := by
  intro first session machine
  have opened : start {} "a.lox" false none = .ok first := by rfl
  have reachable : session.Reachable := .run (.start opened) _
  obtain ⟨returns, moments⟩ := runs_restore_frames session reachable
  have passes : isBlock (session.accepted? "{ var a = 1; }") = true := by decide +kernel
  have inner : machine.current = 2 := by decide +kernel
  unfold isBlock at passes
  split at passes
  · rename_i body accepted
    have executes : Moment.Leads 0 ⟨.executeAll 2 [.block body], session.machine⟩
        ⟨.execute 2 (.block body), session.machine⟩ := .inl rfl
    have enters : Moment.Leads 0 ⟨.execute 2 (.block body), session.machine⟩ ⟨.executeAll 1 body, machine⟩ := by
      change _ = (⟨.executeAll 1 body, session.machine.inside session.machine.current []⟩ : Moment)
      rw [reachable.sound.current]
    have comes : session.Comes ⟨2, 0⟩ [.block body] ⟨.executeAll 1 body, machine⟩ :=
      (Relation.ReflTransGen.single executes).tail enters
    have restores := (moments _ ⟨2, 0⟩).2 _ comes
    exact ⟨returns _, _, body, accepted, comes, inner, fun rounds room => (restores rounds room).2⟩
  · cases passes

/-- Execution touches only what can be got at. At every moment of the run of a program, be it bound without a fault or
not, whatever is evaluated or executed then leaves the frames and instances alone that neither the frame at hand nor the
global frame leads to; what it ends with, and what it binds, stores or makes others refer to, could be got at from
there, or is new. -/
theorem runs_touch_near_objects (session : Session) (program : BoundProgram) (limits : Limits) (moment : Moment)
    (reachable : session.Reachable) (comes : session.Comes limits program moment) (rounds room : Nat) :
    (∀ expr, (eval .byDistance rounds room expr).Confines moment.machine some) ∧
      ∀ stmt, (exec .byDistance rounds room stmt).Confines moment.machine Flow.value? := by
  have underway := comes.underway reachable
  obtain ⟨finding, keeping⟩ := stays_on_ground moment.machine rounds room
  refine ⟨fun expr => (finding underway).confines fun result after value offers ends => ?_,
    fun stmt => (keeping underway).confines fun flow after value returns ends => ?_⟩
  · cases ends
    exact offers
  · cases flow with
    | next => cases ends
    | returned result =>
      cases ends
      exact returns value rfl

/-- Nothing that a frame binds leads to an object. -/
def bindsNoObject (frames : Frames) (frame : FrameId) : Bool :=
  (frames.names frame).entries.all fun entry => entry.2.object?.isNone

/-- A variable of a block that has ended, in the run of the text after it. Nothing that may be executed there changes
the frame that it is bound in. -/
theorem runs_touch_near_objects_after_block :
    let first : Session := { reporter := {}, path := "a.lox", interactive := false }
    let session := (first.run "{ var hidden = 1; }").2
    let machine := session.machine
    ((machine.frames.names 1).contains "hidden" = true ∧ ¬ machine.Near (.frame 1)) ∧
      ∃ program, session.accepted? "var a = 2;" = some program ∧
        ∀ rounds room stmt,
          ((exec .byDistance rounds room stmt).last machine).frames.names 1 = machine.frames.names 1 := by
  intro first session machine
  have opened : start {} "a.lox" false none = .ok first := by rfl
  have reachable : session.Reachable := .run (.start opened) _
  have passes : (session.accepted? "var a = 2;").isSome = true := by decide +kernel
  obtain ⟨program, accepted⟩ := Option.isSome_iff_exists.mp passes
  have hidden : (machine.frames.names 1).contains "hidden" = true := by decide +kernel
  have there : machine.Has (.frame 1) := by
    change 1 < machine.frames.all.size
    decide +kernel
  have outermost : machine.frames.link? globalFrame 1 = none := by decide +kernel
  have plain : bindsNoObject machine.frames globalFrame = true := by decide +kernel
  have apart (object : Object) : ¬ machine.Refers (.frame globalFrame) object := by
    intro refers
    cases refers with
    | enclosing linked =>
      rw [outermost] at linked
      cases linked
    | bound held is =>
      obtain ⟨before, after, same, _⟩ := List.lookup_eq_some_iff.mp held
      have none := List.all_eq_true.mp plain _ (same ▸ List.mem_append_right before List.mem_cons_self)
      simp [is] at none
  have far : ¬ machine.Near (.frame 1) := by
    rintro ⟨root, isRoot, path⟩
    have isGlobal : root = .frame globalFrame := by
      rcases isRoot with rfl | rfl
      · exact congrArg _ reachable.sound.current
      · rfl
    subst isGlobal
    rcases Relation.ReflTransGen.cases_head path with same | ⟨object, refers, _⟩
    · cases same
    · exact apart object refers
  refine ⟨⟨hidden, far⟩, program, accepted, fun rounds room stmt => ?_⟩
  have comes : session.Comes ⟨1, 0⟩ program ⟨.executeAll 1 program, machine⟩ := .refl
  exact ((runs_touch_near_objects session program ⟨1, 0⟩ _ reachable comes rounds room).2 stmt).names 1 there far

end Session

end Lox
