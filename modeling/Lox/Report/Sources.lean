import Lox.Table
import Lox.Text.Lines

/-!
The source texts that reports may quote, as lines under the path of their file. The current file is the one
that was registered last for the first time.
-/
namespace Lox.Report

abbrev Sources := Table (List String)

namespace Sources

/-- Registers a file, with its text if that is at hand. What was registered for the path before is lost,
but its place is kept. -/
def register (sources : Sources) (path : String) (text : Option String) : Sources :=
  sources.set path ((text.map Text.lines).getD [])

/-- Adds the lines of a text to those of a path. Here only a line feed ends a line, as it does for the
positions of tokens. -/
def add (sources : Sources) (path : String) (text : String) : Sources :=
  sources.set path ((sources.get? path).getD [] ++ Text.splitAtFeeds text)

/-- Path and lines of the current file. -/
def current? (sources : Sources) : Option (String × List String) := sources.entries.getLast?

/-- A line by its number, counted from one. -/
def lineOf? (lines : List String) (number : Int) : Option String :=
  if 0 < number then lines[number.toNat - 1]? else none

/-- The path of the current file, and the line of it that has the given number. -/
def quote (sources : Sources) (number : Option Int) : Option String × Option String :=
  match sources.current? with
  | none => (none, none)
  | some (path, lines) => (some path, number.bind (lineOf? lines))

end Sources

end Lox.Report
