import Lox.Report.Problem
import Lox.Report.Sources

/-!
Reports: what is written about a problem. The first line has the place, the sort of problem and the message;
below it the line of the program is shown with the token marked.
-/
namespace Lox.Report

open Text

/-- Errors are marked in red, warnings in magenta. -/
inductive Severity where
  | error
  | warning
  deriving DecidableEq, Repr

def Severity.colour : Severity → Colour
  | error => .red
  | warning => .magenta

/-- The part of a line that a token covers: where it starts and where it ends, both within the line. -/
def extent (line : List Char) (token : Token) : Nat × Nat :=
  let start := min token.col line.length
  (start, min (start + max token.lexeme.length 1) line.length)

/-- A line with a token marked, and a row below it with a caret under the start of the token. -/
def diagnose (severity : Severity) (line : String) (token : Token) : Styled :=
  let chars := line.toList
  let (start, stop) := extent chars token
  let covered := (chars.take stop).drop start
  let margin := String.ofList (List.replicate start ' ')
  [.plain ("  " ++ String.ofList (chars.take start)), .coloured severity.colour (String.ofList covered),
   .plain (String.ofList (chars.drop stop) ++ "\n" ++ "  " ++ margin),
   .coloured severity.colour (String.ofList ('^' :: List.replicate (stop - start - 1) '~'))]

/-- Path and line number, if both are known. -/
def location : Option String → Option Int → Styled
  | some path, some line => [.bold s!"{path}:{line}: "]
  | _, _ => []

/-- The diagnosis of a problem, if one is wanted, its token has a text, and the line that would be shown is
the one of the token. -/
def diagnosis (severity : Severity) (quoted : Option String) (problem : Problem) : Styled :=
  match problem.diagnosis, problem.token?, quoted with
  | true, some token, some line =>
    if some token.line = problem.line? && !token.lexeme.isEmpty then
      .plain "\n" :: diagnose severity line token
    else []
  | _, _, _ => []

/-- The text about a problem under a given label. -/
def describe (sources : Sources) (severity : Severity) (label : String) (problem : Problem) : Styled :=
  let (path, quoted) := sources.quote problem.line?
  let internal := if problem.internal then [.coloured .red "[internal] "] else []
  let place := if problem.place.isEmpty then "" else " " ++ problem.place
  location path problem.line? ++ internal ++ [.coloured severity.colour (label ++ place ++ ": ")] ++
    problem.message ++ diagnosis severity quoted problem

end Lox.Report
