import Lox.Proofs.Pairing.Runs
import Lox.Proofs.Session.Soundness

/-!
Pairings over whole sessions. Between its runs a session has one machine, which stands beside itself; a text is
then run twice from there. What a pairing says of the machine is kept by all the texts of a session, provided
that both runs of each come to the same machine.
-/
namespace Lox

/-- The sessions that come about by running texts, of which those that are accepted stand for programs of some
kind. -/
inductive Session.ReachableBy (Kind : BoundProgram → Prop) : Session → Prop
  | start {reporter : Report.Reporter} {path : String} {interactive : Bool} {dump : Option Dump}
      {session : Session} (opened : start reporter path interactive dump = .ok session) : ReachableBy Kind session
  | atTime {session : Session} (earlier : ReachableBy Kind session) (now : Float) : ReachableBy Kind (session.atTime now)
  | run {session : Session} (earlier : ReachableBy Kind session) (text : String)
      (kind : ∀ program, session.accepted? text = some program → Kind program) : ReachableBy Kind (session.run text).2

/-- The sessions that come about by running texts, with the programs that those of them that are accepted stand for,
the latest one first. -/
inductive Session.History : List BoundProgram → Session → Prop
  | start {reporter : Report.Reporter} {path : String} {interactive : Bool} {dump : Option Dump}
      {session : Session} (opened : start reporter path interactive dump = .ok session) : History [] session
  | atTime {programs : List BoundProgram} {session : Session} (earlier : History programs session) (now : Float) :
      History programs (session.atTime now)
  | run {programs : List BoundProgram} {session : Session} (earlier : History programs session) (text : String) :
      History ((session.accepted? text).toList ++ programs) (session.run text).2

namespace Session

variable {Kind : BoundProgram → Prop} {session : Session} {programs : List BoundProgram}

theorem ReachableBy.reachable (reached : session.ReachableBy Kind) : session.Reachable := by
  induction reached with
  | start opened => exact .start opened
  | atTime _ now ih => exact .atTime ih now
  | run _ text _ ih => exact .run ih text

theorem Reachable.reachableBy (reachable : session.Reachable) (any : ∀ program, Kind program) :
    session.ReachableBy Kind := by
  induction reachable with
  | start opened => exact .start opened
  | atTime _ now ih => exact .atTime ih now
  | run _ text ih => exact .run ih text fun program _ => any program

theorem Reachable.history (reachable : session.Reachable) : ∃ programs, session.History programs := by
  induction reachable with
  | start opened => exact ⟨_, .start opened⟩
  | atTime _ now ih =>
    obtain ⟨programs, history⟩ := ih
    exact ⟨_, history.atTime now⟩
  | run _ text ih =>
    obtain ⟨programs, history⟩ := ih
    exact ⟨_, history.run text⟩

theorem History.reachableBy (history : session.History programs) (kinds : ∀ program ∈ programs, Kind program) :
    session.ReachableBy Kind := by
  induction history with
  | start opened => exact .start opened
  | atTime _ now ih => exact .atTime (ih kinds) now
  | run _ text ih =>
    refine .run (ih fun program member => kinds program (List.mem_append_right _ member)) text ?_
    intro program accepted
    exact kinds program (List.mem_append_left _ (by simp [accepted]))

theorem History.reachable (history : session.History programs) : session.Reachable :=
  (history.reachableBy fun _ _ => trivial : session.ReachableBy fun _ => True).reachable

end Session

namespace Pairing

variable {pairing : Pairing} {top : pairing.Around} {machine : Machine} {Kind : BoundProgram → Prop}
  {session : Session} {text : String} {program : BoundProgram}

/-- A machine beside itself, with the global frame at the top. -/
def Rooted (pairing : Pairing) (top : pairing.Around) (machine : Machine) : Prop :=
  ∃ world, Scene.Agrees (⟨world, machine, machine⟩ : pairing.Scene) ∧ pairing.Stands world top globalFrame

/-- It is the stores that matter; for all else the machines have to have the same. -/
theorem Scene.Agrees.of_stores {world : pairing.World} {left right left' right' : Machine}
    (agrees : Scene.Agrees (⟨world, left, right⟩ : pairing.Scene)) (isLeft : left'.toStore = left.toStore)
    (isRight : right'.toStore = right.toStore) (current : left'.current = right'.current)
    (output : left'.output = right'.output) (now : left'.now = right'.now) :
    Scene.Agrees (⟨world, left', right'⟩ : pairing.Scene) := by
  obtain ⟨store, _, _, _⟩ := left'
  obtain ⟨store', _, _, _⟩ := right'
  cases isLeft
  cases isRight
  exact ⟨agrees.state, current, output, now, agrees.frames, agrees.size, agrees.functions, agrees.classes, agrees.instances,
    agrees.names, agrees.fields, agrees.methods⟩

/-- What agrees, agrees also with other frames at hand and other output. -/
theorem Scene.Agrees.moved {scene : pairing.Scene} (agrees : scene.Agrees) (current : FrameId) (output : String)
    (now : Float) : Scene.Agrees (⟨scene.world, { scene.left with current, output, now },
      { scene.right with current, output, now }⟩ : pairing.Scene) :=
  agrees.of_stores rfl rfl rfl rfl rfl

theorem Rooted.moved (rooted : pairing.Rooted top machine) (current : FrameId) (output : String) (now : Float) :
    pairing.Rooted top { machine with current, output, now } := by
  obtain ⟨world, agrees, stands⟩ := rooted
  exact ⟨world, agrees.moved current output now, stands⟩

/-- A pairing whose first run is that of sessions, and that matches all programs of a kind with themselves. -/
structure Hosts (pairing : Pairing) (top : pairing.Around) (Kind : BoundProgram → Prop) : Prop where
  lawful : pairing.Lawful
  start : ∃ world, pairing.State world .initial .initial ∧ pairing.Stands world top globalFrame
  matching : ∀ {session : Session} {text : String} {program : BoundProgram}, session.accepted? text = some program →
    Kind program → ∃ next, pairing.MatchBody top next program program
  /-- Both runs come to the same machine. -/
  mirror : pairing.right = .byDistance ∨ ∀ {scene : pairing.Scene}, scene.Agrees → scene.left = scene.right

/-- The native functions are all that there is at the start. -/
theorem native_of_initial {frame : FrameId} {name : String} {value : Value}
    (bound : (Store.initial.frames.names frame).get? name = some value) : value = .native .clock := by
  cases frame with
  | zero =>
    have names : Store.initial.frames.names 0 = ⟨[("clock", .native .clock)]⟩ := rfl
    rw [names, Table.get?, List.lookup_cons] at bound
    split at bound
    · exact (Option.some.inj bound).symm
    · cases bound
  | succ frame => cases bound

theorem agrees_initial {world : pairing.World} (state : pairing.State world .initial .initial) :
    Scene.Agrees (⟨world, .initial, .initial⟩ : pairing.Scene) := by
  refine ⟨state, rfl, rfl, rfl, rfl, rfl, ?_, rfl, rfl, ?_, ?_, ?_⟩
  · intro id function function' found
    simp [Machine.initial, Store.initial] at found
  · intro frame name value bound
    rw [native_of_initial bound]
    trivial
  · intro id found name value held
    simp [Machine.initial, Store.initial] at held
  · intro id found name method held
    simp [Machine.initial, Store.initial] at held

theorem Hosts.rooted_initial (hosts : pairing.Hosts top Kind) : pairing.Rooted top .initial := by
  obtain ⟨world, state, stands⟩ := hosts.start
  exact ⟨world, agrees_initial state, stands⟩

/-- Two programs that match, run from one machine. -/
theorem Rooted.goes_program (rooted : pairing.Rooted top machine) (lawful : pairing.Lawful)
    (current : machine.current = globalFrame) {next : pairing.Around} {program' : BoundProgram}
    (matching : pairing.MatchBody top next program program') (limits : Limits) :
    ∃ after : pairing.Scene, after.Agrees ∧ pairing.Stands after.world top globalFrame ∧
      (Run.program .byDistance limits program machine = .ok () after.left ∧
          Run.program pairing.right limits program' machine = .ok () after.right ∨
        ∃ halt halt', Run.program .byDistance limits program machine = .error halt after.left ∧
          Run.program pairing.right limits program' machine = .error halt' after.right ∧ pairing.Alike halt halt') := by
  obtain ⟨world, agrees, stands⟩ := rooted
  have at_ : Scene.At (⟨world, machine, machine⟩ : pairing.Scene) top := by
    rw [Scene.At, current]
    exact stands
  obtain ⟨after, moved, agrees', ended⟩ := Pairing.goes_program lawful agrees at_ matching limits
  refine ⟨after, agrees', lawful.stands moved.world stands, ?_⟩
  obtain ⟨_, ended, ended', _⟩ | halted := ended
  · exact .inl ⟨ended, ended'⟩
  · exact .inr halted

/-- One program run in both ways from one machine: the runs come to the same machine, and the pairing holds of
it. -/
theorem Hosts.runs (hosts : pairing.Hosts top Kind) (rooted : pairing.Rooted top machine)
    (current : machine.current = globalFrame) {next : pairing.Around}
    (matching : pairing.MatchBody top next program program) (limits : Limits) :
    ∃ after, pairing.Rooted top after ∧
      (Run.program .byDistance limits program machine = .ok () after ∧
          Run.program pairing.right limits program machine = .ok () after ∨
        ∃ halt halt', Run.program .byDistance limits program machine = .error halt after ∧
          Run.program pairing.right limits program machine = .error halt' after ∧ pairing.Alike halt halt') := by
  obtain ⟨after, agrees, stands, ended⟩ := rooted.goes_program hosts.lawful current matching limits
  have same : after.left = after.right := by
    rcases hosts.mirror with equal | mirror
    · rw [equal] at ended
      obtain ⟨ended, ended'⟩ | ⟨_, _, ended, ended', _⟩ := ended
      · rw [ended] at ended'
        injection ended'
      · rw [ended] at ended'
        injection ended'
    · exact mirror agrees
  refine ⟨after.left, ⟨after.world, ?_, stands⟩, ?_⟩
  · obtain ⟨world, left, right⟩ := after
    cases same
    exact agrees
  · rwa [← same] at ended

theorem Rooted.caught (rooted : pairing.Rooted top machine) (halt : Halt) : pairing.Rooted top (machine.caught halt) := by
  cases halt with
  | fault fault => exact rooted.moved _ _ _
  | _ => exact rooted

theorem Hosts.rooted_execute (hosts : pairing.Hosts top Kind) (rooted : pairing.Rooted top session.machine)
    (current : session.machine.current = globalFrame) {next : pairing.Around}
    (matching : pairing.MatchBody top next program program) : pairing.Rooted top (session.execute program).2.machine := by
  obtain ⟨after, rooted', ended⟩ := hosts.runs rooted current matching runLimits
  obtain ⟨ended, _⟩ | ⟨halt, _, ended, _⟩ := ended
  · simp only [Session.execute, ended]
    exact rooted'.moved _ _ _
  · simp only [Session.execute, ended]
    exact (rooted'.moved _ _ _).caught halt

/-- A pairing holds of every session that runs programs of its kind. -/
theorem Hosts.rooted (hosts : pairing.Hosts top Kind) (reached : session.ReachableBy Kind) :
    pairing.Rooted top session.machine := by
  induction reached with
  | start opened =>
    rw [Session.machine_of_start opened]
    exact hosts.rooted_initial
  | atTime _ now ih => exact ih.moved _ _ now
  | @run session earlier text kind ih =>
    rcases session.run_cases text with same | ⟨program, dump, accepted⟩
    · rwa [same]
    · obtain ⟨next, matching⟩ := hosts.matching accepted (kind program accepted)
      rw [Session.run_of_accepted? dump accepted]
      exact hosts.rooted_execute ih earlier.reachable.sound.current matching

end Pairing

end Lox
