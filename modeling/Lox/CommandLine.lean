import Lox.CommandLine.Arguments
import Lox.Shell
import Lox.Text.Utf8

/-!
The command line: runs a file, or a shell if there is none. Its exit status tells how it went.
-/
namespace Lox.CommandLine

open Report

/-- What the program leaves behind. -/
structure Answer where
  status : Nat
  output : String := ""
  complaint : String := ""
  deriving DecidableEq, Repr

def usage : String := "usage: plox [-h] [--tokens | --ast] [file]\n"

def helpText : String := usage ++ "\n".intercalate
  ["",
   "Tree-walking interpreter for the Lox language.",
   "",
   "positional arguments:",
   "  file        file to interpret and run (if empty, goes to command-line mode)",
   "",
   "options:",
   "  -h, --help  show this help message and exit",
   "  --tokens    print the scanned tokens instead of running",
   "  --ast       print the parsed syntax tree instead of running",
   ""]

/-- The answer to arguments that make no sense. -/
def misuse (complaint : String) : Answer :=
  { status := 2, complaint := usage ++ "plox: error: " ++ complaint ++ "\n" }

/-- The text in a file: its bytes as UTF-8, with every line end as one line feed. A file that could not be
opened has no bytes. -/
def textOf (path : String) (bytes : Option (List UInt8)) : Except Failure String :=
  if path.toList.contains '\x00' then .error (.unknown "ValueError" "embedded null byte")
  else
    match bytes with
    | none =>
      .error (.problem
        { message := [.plain "'", .bold path, .plain "' could not be opened"], diagnosis := false })
    | some bytes =>
      match Text.decodeUtf8 bytes with
      | .ok chars => .ok (String.ofList (Text.unifyLineEnds chars))
      | .error fault => .error (.unknown "UnicodeDecodeError" fault.message)

/-- The answer of a program that ends with a failure. -/
def answerFailure (reporter : Reporter) (failure : Failure) : Answer :=
  let settled := reporter.settle failure
  match settled.verdict with
  | .exit status => { status, output := settled.report }
  | _ => { status := 1, output := settled.report }

/-- Runs the text of a file. -/
def runText (session : Session) (text : String) : Answer :=
  let sources := session.reporter.sources.register session.path (some text)
  let session := { session with reporter := { session.reporter with sources } }
  let (reported, _) := session.runReported text
  let output := reported.output ++ reported.report
  match reported.outcome, reported.verdict with
  | some outcome, _ => { status := outcome.status, output }
  | none, .exit status => { status, output }
  | none, _ => { status := 1, output }

/-- Runs a file. -/
def runFile (reporter : Reporter) (now : Float) (path : String) (dump : Option Dump)
    (bytes : Option (List UInt8)) : Answer :=
  match Session.start reporter path false dump with
  | .error problem => answerFailure reporter (.problem problem)
  | .ok session =>
    match textOf path bytes with
    | .error failure => answerFailure session.reporter failure
    | .ok text => runText (session.atTime now) text

/-- The lines of an input; a final line feed opens no further line. -/
def inputLines (input : String) : List String :=
  match (Text.splitAtFeeds input).reverse with
  | "" :: rest => rest.reverse
  | lines => lines.reverse

/-- Runs a shell on an input that is known beforehand. -/
def runShell (reporter : Reporter) (now : Float) (dump : Option Dump) (input : String) : Answer :=
  match Shell.start reporter dump with
  | .error problem => answerFailure reporter (.problem problem)
  | .ok shell =>
    let shell := { shell with session := shell.session.atTime now }
    { status := 0, output := Shell.intro ++ "\n" ++ shell.transcript (inputLines input) }

/-- Runs the program: `contents` gives the bytes of the files that can be opened. -/
def run (ink : Text.Ink) (now : Float) (contents : String → Option (List UInt8)) (arguments : List String)
    (input : String) : Answer :=
  match Order.ofArguments arguments with
  | .help => { status := 0, output := helpText }
  | .misuse complaint => misuse complaint
  | .start (some path) dump => runFile { ink } now path dump (contents path)
  | .start none dump => runShell { ink } now dump input

end Lox.CommandLine
