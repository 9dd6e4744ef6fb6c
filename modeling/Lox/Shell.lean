import Lox.Session
import Lox.Text.Blank

/-!
The interactive shell: it takes line by line, obeys a few commands, and runs everything else in a session.
Lines with open brackets are kept until the brackets are closed.
-/
namespace Lox

open Report

/-- What a shell shows before a line that starts a text. -/
def Shell.primaryPrompt : String := "> "

/-- What a shell shows before a line that goes on with a text. -/
def Shell.secondaryPrompt : String := ". "

structure Shell where
  session : Session
  /-- Lines that wait for more, each with a line feed after it. -/
  pending : String := ""
  /-- What is shown before the next line. -/
  prompt : String := Shell.primaryPrompt

/-- What happens on one line: whether the shell stops, the outcome of a run if there was one that had one,
what the program printed, what was reported, and what the shell itself says. -/
structure Shell.Step where
  stop : Bool := false
  outcome : Option Outcome := none
  output : String := ""
  report : String := ""
  notice : String := ""

/-- What a line asks for. -/
inductive Shell.Request where
  | nothing
  | help
  | finish
  | leave (argument : String)
  | code (text : String)
  deriving DecidableEq, Repr

namespace Shell

def intro : String := "plox :: Python backend\nType 'help' for more information, 'exit' or Ctrl-D to leave."

def helpText : String := "\n".intercalate
  ["Welcome to the plox interpreter!",
   "",
   "Lox is a small dynamically typed scripting language with closures and classes. Every line you",
   "type is run as soon as it is complete; variables, functions and classes stay defined for the",
   "rest of the session.",
   "",
   "Try it out by typing 'var greeting = \"hello\";' and then 'print greeting + \", world\";'."]

/-- The line that stands for the end of the input. -/
def endOfInput : String := "EOF"

/-- Whether a text has more opening than closing braces, or parentheses, and so waits for more. -/
def needsContinuation (text : String) : Bool :=
  let count (char : Char) := text.toList.count char
  count '}' < count '{' || count ')' < count '('

/-- What a command with its argument asks for. -/
def command? (name argument : List Char) : Option Request :=
  if name = "help".toList then some .help
  else if name = endOfInput.toList then some .finish
  else if name = "exit".toList then some (.leave (String.ofList argument))
  else none

/-- Reads a line. The longest run of letters, digits and underscores at its start may be a command; a
question mark there stands for `help`, and all that is no command is code. -/
def request (line : String) : Request :=
  match Text.trim line.toList with
  | [] => .nothing
  | '?' :: _ => .help
  | line =>
    let name := line.takeWhile Scan.isWord
    let argument := Text.trim (line.drop name.length)
    (command? name argument).getD (.code (String.ofList line))

/-- Takes a line of code: keeps it if brackets are open, and runs all that is kept otherwise. -/
def takeCode (shell : Shell) (line : String) : Step × Shell :=
  let text := shell.pending ++ line
  if needsContinuation text then ({}, { shell with pending := text ++ "\n", prompt := secondaryPrompt })
  else
    let (reported, session) := shell.session.runReported text
    ({ outcome := reported.outcome, output := reported.output, report := reported.report },
      { session, pending := "", prompt := primaryPrompt })

/-- Takes a line. Commands work inside a continuation too. -/
def take (shell : Shell) (line : String) : Step × Shell :=
  match request line with
  | .nothing => ({}, shell)
  | .help => ({ notice := helpText ++ "\n" }, shell)
  | .finish => ({ stop := true, notice := "\n" }, shell)
  | .leave argument =>
    if argument.isEmpty then ({ stop := true }, shell)
    else
      let message := [.plain "unrecognized argument '", .bold argument, .plain "' to exit"]
      ({ report := shell.session.reporter.warn { message, diagnosis := false } }, shell)
  | .code text => shell.takeCode text

/-- Opens a shell. -/
def start (reporter : Reporter) (dump : Option Dump) : Except Problem Shell := do
  return { session := ← Session.start reporter Session.typedPath true dump }

/-- All that one line makes appear on the screen, in order. -/
def Step.screen (step : Step) : String := step.notice ++ step.output ++ step.report

/-- What is on the screen after the given lines and the end of the input, where a line stops the shell or
the end does. -/
def transcript (shell : Shell) : List String → String
  | [] => shell.prompt ++ (shell.take endOfInput).1.screen
  | line :: rest =>
    let (step, after) := shell.take line
    let shown := shell.prompt ++ step.screen
    if step.stop then shown else shown ++ after.transcript rest

end Shell

end Lox
