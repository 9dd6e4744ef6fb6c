import Lox.Parse.Program
import Lox.Report.Faults
import Lox.Report.Reporter
import Lox.Run.Eval
import Lox.Tree.Show

/-!
Sessions: one machine on which one program text after the other is run. A text goes through all stages:
scanning, reading, binding, execution. Faults of a stage before execution keep it from being executed at all.
Globals stay from run to run, and so do line numbers: each text starts on the line after the last one.
-/
namespace Lox

open Report

/-- How a run ends. -/
inductive Outcome where
  | ok
  | staticError
  | runtimeError
  deriving DecidableEq, Repr

/-- The exit status of a program that ends with this outcome. -/
def Outcome.status : Outcome → Nat
  | ok => 0
  | staticError => 65
  | runtimeError => 70

/-- What to print about a program instead of executing it. -/
inductive Dump where
  | tokens
  | tree
  deriving DecidableEq, Repr

structure Session where
  reporter : Reporter
  path : String
  interactive : Bool
  dump : Option Dump := none
  machine : Machine := .initial
  /-- The number of the line that the next text starts on. -/
  line : Int := 1

/-- What a run gives: its outcome, or the failure that kept it from having one, what it printed, and the
problems in the order in which they are reported. -/
structure Ran where
  result : Except Failure Outcome
  output : String := ""
  problems : List Problem := []

/-- What is wrong if a run halts for a reason that no program should give. -/
def Defect.failure (cause : Defect) : Failure :=
  .unknown "Defect" (match cause with
    | .missing .frame => "no such frame"
    | .missing .name => "no such name"
    | .unboundSuper => "super has no scope"
    | .superNotClass => "super is no class"
    | .thisNotInstance => "this is no instance"
    | .danglingObject => "no such object"
    | .returnOutsideFunction => "return outside of a function")

/-- The nesting that a run allows for, calls included. Loops may go on for ever, as far as anybody can
tell. -/
def runLimits : Limits := ⟨10000, Nat.pow 2 62⟩

namespace Session

/-- The path of what is typed in. -/
def typedPath : String := "<in>"

/-- Opens a session. An interactive one goes on after errors and collects its source text run by run; the
path that stands for it is no file's. -/
def start (reporter : Reporter) (path : String) (interactive : Bool) (dump : Option Dump) :
    Except Problem Session :=
  if interactive then
    .ok { reporter := { reporter with fatal := false, sources := reporter.sources.register path none }
          path, interactive, dump }
  else if path = typedPath then
    .error { message := [.plain "'", .bold path, .plain "' is a reserved filename"], diagnosis := false }
  else .ok { reporter, path, interactive, dump }

/-- The session at a time of day, which is what the clock of the programs run in it shows. -/
def atTime (session : Session) (now : Float) : Session :=
  { session with machine := { session.machine with now } }

/-- Problems in the order of their lines; on one line they keep their order. -/
def inOrder (problems : List Problem) : List Problem :=
  problems.mergeSort fun first second => first.line?.getD 0 ≤ second.line?.getD 0

/-- A run that ends with problems, if there are any. -/
def failed (outcome : Outcome) (problems : List Problem) (output : String) : Ran where
  result := .ok (if problems.isEmpty then .ok else outcome)
  output
  problems := inOrder problems

/-- How a halted run is told about. -/
def halted (output : String) : Halt → Ran
  | .fault fault => failed .runtimeError [RuntimeFault.problem fault] output
  | .tooDeep => { result := .error .tooDeep, output }
  | .unfinished => { result := .error (.unknown "Unfinished" "too many rounds"), output }
  | .defect cause => { result := .error (Defect.failure cause), output }

/-- Executes a bound program on the session's machine. -/
def execute (session : Session) (program : BoundProgram) : Ran × Session :=
  match Run.program .byDistance runLimits program session.machine with
  | .ok () machine =>
    ({ result := .ok .ok, output := machine.output },
      { session with machine := { machine with output := "" } })
  | .error halt machine =>
    (halted machine.output halt, { session with machine := Machine.caught { machine with output := "" } halt })

/-- The names of the globals, in order of definition. -/
def globalNames (session : Session) : List String := (session.machine.frames.names globalFrame).names

/-- Takes a program that was read without faults further. -/
def runProgram (session : Session) (program : Program Unit) : Ran × Session :=
  match session.dump with
  | some .tree =>
    let lines := program.display 0
    ({ result := .ok .ok, output := String.join (lines.map (· ++ "\n")) }, session)
  | _ =>
    let bound := program.bind session.globalNames
    if bound.faults.isEmpty then session.execute bound.program
    else (failed .staticError (bound.faults.map ScopeFault.problem) "", session)

/-- Takes a scanned text further. -/
def runScan (session : Session) (scan : Scan) : Ran × Session :=
  let scanProblems := scan.faults.map ScanFault.problem
  if session.dump = some .tokens then
    let output := String.join (scan.all.map (·.listed ++ "\n"))
    (failed .staticError scanProblems output, session)
  else
    match scan.parse? with
    | none => ({ result := .error .tooDeep }, session)
    | some parsed =>
      let problems := scanProblems ++ parsed.faults.map SyntaxFault.problem
      if problems.isEmpty then session.runProgram parsed.program
      else (failed .staticError problems "", session)

/-- Takes a text into the session: an interactive session keeps its lines for reports, and the next text
starts on the line after the last one of this. -/
def take (session : Session) (text : String) (scan : Scan) : Session :=
  let sources := session.reporter.sources
  { session with
    line := scan.finish.line + 1
    reporter := { session.reporter with
      sources := if session.interactive then sources.add session.path text else sources } }

/-- Runs a text. -/
def run (session : Session) (text : String) : Ran × Session :=
  let scan := Scan.ofText text.toList session.line
  (session.take text scan).runScan scan

end Session

/-- A run under the care of the session's reporter: a failure is settled too. -/
structure Reported where
  outcome : Option Outcome
  output : String
  report : String
  problems : List Problem
  verdict : Verdict

namespace Session

/-- Runs a text and writes the reports on all that went wrong. Program output comes before any report. -/
def runReported (session : Session) (text : String) : Reported × Session :=
  let (ran, session) := session.run text
  let report := String.join (ran.problems.map session.reporter.report)
  match ran.result with
  | .ok outcome => (⟨some outcome, ran.output, report, ran.problems, .settled⟩, session)
  | .error failure =>
    let settled := session.reporter.settle failure
    (⟨none, ran.output, report ++ settled.report, ran.problems ++ settled.problem.toList, settled.verdict⟩,
      session)

/-- The globals with a summary of their values, in order of definition. -/
def globals (session : Session) : List (String × String) :=
  (session.machine.frames.names globalFrame).entries.map fun (name, value) =>
    (name, session.machine.summary value)

/-- Whether the global frame is at hand. -/
def atGlobals (session : Session) : Bool := session.machine.current = globalFrame

end Session

end Lox
