import Lox.Proofs.Grammar.Acceptance
import Lox.Proofs.Run.Moments
import Lox.Session

/-!
Sessions run well. Whatever texts a session has run, and however those runs ended, its store is sound and the
global frame is at hand; so a text that passes all stages before execution meets no defect when it is
executed.
-/
namespace Lox

namespace Store

/-- The native functions are all that is bound at the start. -/
theorem eq_clock_of_initial {frame : FrameId} {name : String} {value : Value}
    (bound : (Store.initial.frames.names frame).get? name = some value) : name = "clock" ∧ value = .native .clock := by
  have natives : Store.initial.frames.names frame =
      if frame = 0 then ⟨[("clock", .native .clock)]⟩ else .empty := by
    cases frame <;> rfl
  rw [natives] at bound
  split at bound
  · simp only [Table.get?, List.lookup_cons, List.lookup_nil] at bound
    split at bound
    · rename_i same
      exact ⟨by simpa using same, by simpa using bound.symm⟩
    · cases bound
  · cases bound

theorem sound_initial : Store.initial.Sound where
  root := by rfl
  names frame name value bound := by
    obtain ⟨rfl, rfl⟩ := eq_clock_of_initial bound
    exact ⟨trivial, by simp, by simp⟩
  fields id found name value held := by simp [Store.initial] at held
  methods id found name method held := by simp [Store.initial] at held

end Store

namespace Session

/-- The program that a text stands for in a session, if none of the stages before execution finds a fault. -/
def accepted? (session : Session) (text : String) : Option BoundProgram := do
  let scan := Scan.ofText text.toList session.line
  let parsed ← scan.parse?
  let bound := parsed.program.bind session.globalNames
  if scan.faults.isEmpty && parsed.faults.isEmpty && bound.faults.isEmpty then some bound.program else none

/-- The sessions that come about by running texts one after the other, at any times. -/
inductive Reachable : Session → Prop
  | start {reporter : Report.Reporter} {path : String} {interactive : Bool} {dump : Option Dump}
      {session : Session} (opened : start reporter path interactive dump = .ok session) : Reachable session
  | atTime {session : Session} (earlier : Reachable session) (now : Float) : Reachable (session.atTime now)
  | run {session : Session} (earlier : Reachable session) (text : String) : Reachable (session.run text).2

/-- The invariant of sessions between runs. -/
structure Sound (session : Session) : Prop where
  store : session.machine.toStore.Sound
  current : session.machine.current = globalFrame
  output : session.machine.output = ""

variable {session : Session} {text : String} {program : BoundProgram}

theorem Sound.models (sound : session.Sound) :
    session.machine.frames.Models [] session.machine.current := by
  rw [sound.current]
  exact ⟨[], by rw [sound.store.root]; rfl, .nil⟩

theorem accepted?_eq_some_iff : session.accepted? text = some program ↔
    ∃ parsed, (Scan.ofText text.toList session.line).parse? = some parsed ∧
      (Scan.ofText text.toList session.line).faults = [] ∧ parsed.faults = [] ∧
      (parsed.program.bind session.globalNames).faults = [] ∧
      (parsed.program.bind session.globalNames).program = program := by
  unfold accepted?
  cases read : (Scan.ofText text.toList session.line).parse? with
  | none => simp [read]
  | some parsed => simp [read, and_assoc]

/-- A text that is accepted stands for a tree of the right shape that is bound without a fault. -/
theorem shaped_of_accepted? (accepted : session.accepted? text = some program) :
    ∃ source : Program Unit, Stmt.ShapedAll source ∧ (source.bind session.globalNames).faults = [] ∧
      (source.bind session.globalNames).program = program := by
  obtain ⟨parsed, read, _, clean, bound, same⟩ := accepted?_eq_some_iff.mp accepted
  have derived := Parsed.derived_of_within? .any read clean
  have shaped := Grammar.Declaration.shapedMany derived fun _ member => Scan.spelled_of_mem member
  exact ⟨parsed.program, shaped, bound, same⟩

/-- A text that is accepted stands for a program that is safe at the top level. -/
theorem safe_of_accepted? (accepted : session.accepted? text = some program) :
    Stmt.SafeAll false [] program := by
  obtain ⟨source, shaped, clean, rfl⟩ := shaped_of_accepted? accepted
  exact Program.safe_of_bind shaped clean

/-- Safe statements run at the top level to the end, or up to a halt that is allowed. -/
theorem Sound.goes_sequence (sound : session.Sound) (safe : Stmt.SafeAll false [] program) (limits : Limits) :
    Run.Goes (Run.sequence (Run.exec .byDistance limits.rounds limits.room) program)
      (program.flatMap Stmt.declared) session.machine fun flow _ => flow = .next := by
  have executes := (Run.goes_well limits.rounds limits.room).2
  refine (Run.goes_sequence executes sound.store sound.models safe fun _ => rfl).weaken fun flow _ _ fine => ?_
  cases flow with
  | next => rfl
  | returned value => simp [Run.Fine] at fine

theorem Sound.goes_program (sound : session.Sound) (safe : Stmt.SafeAll false [] program) (limits : Limits) :
    Run.Goes (Run.program .byDistance limits program) (program.flatMap Stmt.declared) session.machine
      fun _ _ => True := by
  apply Run.Goes.andThen (sound.goes_sequence safe limits)
  rintro _ after moved rfl
  exact Run.Goes.pure moved.sound trivial

/-- A session that executes what it takes in executes a text that is accepted. -/
theorem run_of_accepted? (executes : session.dump = none) (accepted : session.accepted? text = some program) :
    session.run text = (session.take text (Scan.ofText text.toList session.line)).execute program := by
  obtain ⟨parsed, read, scanned, clean, bound, rfl⟩ := accepted?_eq_some_iff.mp accepted
  have names : (session.take text (Scan.ofText text.toList session.line)).globalNames = session.globalNames := rfl
  have dump : (session.take text (Scan.ofText text.toList session.line)).dump = none := executes
  simp [run, runScan, runProgram, read, scanned, clean, dump, names, bound]

theorem result_failed {outcome : Outcome} {problems : List Report.Problem} (some_ : problems.isEmpty = false)
    (output : String) : (failed outcome problems output).result = .ok outcome := by
  simp [failed, some_]

/-- A text that is not accepted is reported on, and not executed. -/
theorem run_of_rejected (executes : session.dump = none) (rejected : session.accepted? text = none) :
    (session.run text).2.machine = session.machine ∧
      ((session.run text).1.result = .ok .staticError ∨ (session.run text).1.result = .error .tooDeep) := by
  have dump : (session.take text (Scan.ofText text.toList session.line)).dump = none := executes
  unfold run runScan
  simp only [dump, reduceCtorEq, if_false]
  split
  · exact ⟨rfl, .inr rfl⟩
  rename_i parsed read
  split
  · rename_i clean
    simp only [List.isEmpty_iff, List.append_eq_nil_iff, List.map_eq_nil_iff] at clean
    simp only [runProgram, dump]
    split
    · rename_i bound
      have accepted : session.accepted? text = some (parsed.program.bind session.globalNames).program :=
        accepted?_eq_some_iff.mpr ⟨parsed, read, clean.1, clean.2, List.isEmpty_iff.mp bound, rfl⟩
      rw [rejected] at accepted
      cases accepted
    · rename_i faulty
      exact ⟨rfl, .inl (result_failed (by simpa using faulty) _)⟩
  · rename_i faulty
    exact ⟨rfl, .inl (result_failed (by simpa using faulty) _)⟩

/-- A session that only shows what it takes in leaves the machine as it is. -/
theorem machine_run_of_dump {choice : Dump} (shows : session.dump = some choice) :
    (session.run text).2.machine = session.machine := by
  have dump : (session.take text (Scan.ofText text.toList session.line)).dump = some choice := shows
  unfold run runScan
  simp only [dump]
  split
  · rfl
  rename_i notTokens
  split
  · rfl
  split
  · cases choice with
    | tokens => exact absurd rfl notTokens
    | tree =>
      simp only [runProgram, dump]
      rfl
  · rfl

/-- A run leaves the machine as it is, unless the text is accepted by a session that executes what it takes in. -/
theorem run_cases (session : Session) (text : String) :
    (session.run text).2.machine = session.machine ∨
      ∃ program, session.dump = none ∧ session.accepted? text = some program := by
  cases dump : session.dump with
  | some choice => exact .inl (machine_run_of_dump dump)
  | none =>
    cases accepted : session.accepted? text with
    | none => exact .inl (run_of_rejected dump accepted).1
    | some program => exact .inr ⟨program, rfl, rfl⟩

theorem Sound.execute (sound : session.Sound) (safe : Stmt.SafeAll false [] program) :
    (session.execute program).2.Sound := by
  have runs := sound.goes_program safe runLimits
  unfold Session.execute
  unfold Run.Goes at runs
  cases ended : Run.program .byDistance runLimits program session.machine with
  | ok value after =>
    rw [ended] at runs
    exact ⟨runs.1.sound, runs.1.current.trans sound.current, rfl⟩
  | error halt after =>
    rw [ended] at runs
    -- Whatever has halted the run, blocks and calls have put back the frames that they started from.
    let settled : Machine := { after with output := "" }
    have current : settled.current = globalFrame := runs.2.1.trans sound.current
    have kept : Session.Sound { session with machine := settled } := ⟨runs.1, current, rfl⟩
    rw [← Machine.caught_eq_self current halt] at kept
    exact kept

theorem Sound.take (sound : session.Sound) (text : String) (scan : Scan) : (session.take text scan).Sound :=
  ⟨sound.store, sound.current, sound.output⟩

theorem Sound.run (sound : session.Sound) (text : String) : (session.run text).2.Sound := by
  rcases session.run_cases text with same | ⟨program, dump, accepted⟩
  · exact ⟨same ▸ sound.store, same ▸ sound.current, same ▸ sound.output⟩
  · rw [run_of_accepted? dump accepted]
    exact (sound.take _ _).execute (safe_of_accepted? accepted)

/-- A session starts with a machine that has run nothing yet. -/
theorem machine_of_start {reporter : Report.Reporter} {path : String} {interactive : Bool} {dump : Option Dump}
    (opened : start reporter path interactive dump = .ok session) : session.machine = .initial := by
  unfold Session.start at opened
  split at opened
  · cases opened
    rfl
  · split at opened
    · cases opened
    · cases opened
      rfl

/-- Every session is sound between its runs. -/
theorem Reachable.sound (reachable : session.Reachable) : session.Sound := by
  induction reachable with
  | @start reporter path interactive dump session opened =>
    have fresh := machine_of_start opened
    exact ⟨by rw [fresh]; exact Store.sound_initial, by rw [fresh]; rfl, by rw [fresh]; rfl⟩
  | atTime _ now ih => exact ⟨ih.store, ih.current, ih.output⟩
  | run _ text ih => exact ih.run text

/-- How the run of an accepted text can end: normally, with a runtime error, or beyond the bounds on nesting
and on the rounds of loops. -/
theorem result_run (sound : session.Sound) (accepted : session.accepted? text = some program) :
    (session.run text).1.result = .ok .ok ∨ (session.run text).1.result = .ok .runtimeError ∨
      (session.run text).1.result = .error .tooDeep ∨
      (session.run text).1.result = .error (.unknown "Unfinished" "too many rounds") := by
  obtain ⟨parsed, read, scanned, clean, bound, same⟩ := accepted?_eq_some_iff.mp accepted
  have taken := (sound.take text (Scan.ofText text.toList session.line)).goes_program (safe_of_accepted? accepted) runLimits
  cases dump : session.dump with
  | some choice =>
    left
    have kept : (session.take text (Scan.ofText text.toList session.line)).dump = some choice := dump
    cases choice <;> simp [run, runScan, runProgram, failed, read, scanned, clean, kept]
  | none =>
    rw [run_of_accepted? dump accepted]
    unfold execute
    unfold Run.Goes at taken
    split
    · exact .inl rfl
    · rename_i halt after ended
      rw [ended] at taken
      cases halt with
      | fault fault => exact .inr (.inl rfl)
      | tooDeep => exact .inr (.inr (.inl rfl))
      | unfinished => exact .inr (.inr (.inr rfl))
      | defect cause => exact absurd taken.2.2 (by simp [Halt.Allowed])

/-- Binding answers for running, over whole sessions. Whatever a session has run, and whatever the bounds
are, the execution of an accepted text finds all that it relies on at every moment, none of its top-level
statements returns, and it halts on no defect. -/
theorem accepted_runs_securely (session : Session) (text : String) (program : BoundProgram)
    (reachable : session.Reachable) (accepted : session.accepted? text = some program) :
    (∀ (limits : Limits) (moment : Moment),
      Relation.ReflTransGen (Moment.Leads limits.rounds)
        ⟨.executeAll limits.room program, session.machine⟩ moment → moment.Secure) ∧
    (∀ (limits : Limits) (value : Value) (after : Machine),
      Run.sequence (Run.exec .byDistance limits.rounds limits.room) program session.machine ≠
        .ok (.returned value) after) ∧
    (∀ (limits : Limits) (cause : Defect) (after : Machine),
      Run.program .byDistance limits program session.machine ≠ .error (.defect cause) after) ∧
    ((session.run text).1.result = .ok .ok ∨ (session.run text).1.result = .ok .runtimeError ∨
      (session.run text).1.result = .error .tooDeep ∨
      (session.run text).1.result = .error (.unknown "Unfinished" "too many rounds")) := by
  have sound := reachable.sound
  have safe := safe_of_accepted? accepted
  refine ⟨fun limits moment leads => ?_, fun limits value after ended => ?_, fun limits cause after ended => ?_,
    result_run sound accepted⟩
  · have ready : Moment.Ready ⟨.executeAll limits.room program, session.machine⟩ :=
      ⟨sound.store, [], false, sound.models, safe⟩
    exact (ready.run leads).secure
  · exact Flow.noConfusion ((sound.goes_sequence safe limits).of_ok ended).2
  · have runs := sound.goes_program safe limits
    unfold Run.Goes at runs
    rw [ended] at runs
    exact runs.2.2

/-- An initialiser that calls the one of the superclass, after a run that has failed. -/
theorem accepted_runs_securely_after_fault :
    let first : Session := { reporter := {}, path := "a.lox", interactive := false }
    let session := (first.run "nil();").2
    let text := "class A { init() { this.me = this; } }" ++
      "class B < A { init() { super.init(); } } { var b = B(); b = b.me; }"
    ∃ program, session.accepted? text = some program ∧
      ∀ (limits : Limits) (moment : Moment), Relation.ReflTransGen (Moment.Leads limits.rounds)
        ⟨.executeAll limits.room program, session.machine⟩ moment → moment.Secure := by
  intro first session text
  have opened : start {} "a.lox" false none = .ok first := by rfl
  have passes : (session.accepted? text).isSome = true := by decide +kernel
  obtain ⟨program, accepted⟩ := Option.isSome_iff_exists.mp passes
  have reachable : session.Reachable := .run (.start opened) "nil();"
  exact ⟨program, accepted, (accepted_runs_securely session text program reachable accepted).1⟩

end Session

end Lox
