import Lox.CommandLine
import Std.Time.DateTime.Timestamp

/-!
The program itself: arguments, files, clock and terminal around the pure command line.
-/
namespace Lox.CommandLine

/-- Seconds since the start of 1970. -/
def timeOfDay : IO Float := do
  let now ← Std.Time.Timestamp.now
  return Float.ofInt now.toMillisecondsSinceUnixEpoch.val / 1000

/-- The bytes of a file, if it can be opened. -/
def contentsOf (path : String) : IO (Option (List UInt8)) := do
  try
    return some (← IO.FS.readBinFile path).toList
  catch _ => return none

/-- Shows a prompt and takes a line, until a line or the end of the input stops the shell. -/
partial def converse (shell : Shell) : IO Unit := do
  let output ← IO.getStdout
  output.putStr shell.prompt
  output.flush
  let line ← (← IO.getStdin).getLine
  let line := if line.isEmpty then Shell.endOfInput else line
  let (step, shell) := { shell with session := shell.session.atTime (← timeOfDay) }.take line
  output.putStr step.screen
  output.flush
  unless step.stop do converse shell

/-- Writes an answer out and gives its status. -/
def deliver (answer : Answer) : IO UInt32 := do
  (← IO.getStdout).putStr answer.output
  (← IO.getStderr).putStr answer.complaint
  return answer.status.toUInt32

end Lox.CommandLine

open Lox.CommandLine in
def main (arguments : List String) : IO UInt32 := do
  let ink : Lox.Text.Ink := if ← (← IO.getStdout).isTty then .colour else .plain
  match Order.ofArguments arguments with
  | .start none dump =>
    match Lox.Shell.start { ink } dump with
    | .error problem => deliver (answerFailure { ink } (.problem problem))
    | .ok shell =>
      IO.println Lox.Shell.intro
      converse shell
      return 0
  | .start (some path) _ =>
    let bytes ← contentsOf path
    deliver (run ink (← timeOfDay) (fun _ => bytes) arguments "")
  | _ => deliver (run ink 0 (fun _ => none) arguments "")
