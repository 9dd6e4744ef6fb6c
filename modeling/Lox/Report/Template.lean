import Lox.Text.Styled

/-!
Messages with holes. A pair of braces is a hole, a doubled brace stands for one brace. The snippets that
fill the holes stand out in bold. A message without snippets is taken as it is, braces included.
-/
namespace Lox.Report

open Text

/-- The parts of a template. -/
inductive Part where
  | char (char : Char)
  | hole
  deriving DecidableEq, Repr

/-- Cuts a template into characters and holes. -/
def parts : List Char → List Part
  | '{' :: '}' :: rest => .hole :: parts rest
  | '{' :: '{' :: rest => .char '{' :: parts rest
  | '}' :: '}' :: rest => .char '}' :: parts rest
  | char :: rest => .char char :: parts rest
  | [] => []

/-- Fills the holes from left to right, `literal` holding the characters since the last hole, last one
first. There must be a snippet for each hole; more do not matter. -/
def fillParts? (literal : List Char) : List Part → List String → Option Styled
  | [], _ => some [.plain (String.ofList literal.reverse)]
  | .char char :: rest, snippets => fillParts? (char :: literal) rest snippets
  | .hole :: _, [] => none
  | .hole :: rest, snippet :: snippets => do
    return .plain (String.ofList literal.reverse) :: .bold snippet :: (← fillParts? [] rest snippets)

/-- The message that a template gives with some snippets, if there are enough of them. -/
def fill? (template : String) (snippets : List String) : Option Styled :=
  if snippets.isEmpty then some [.plain template] else fillParts? [] (parts template.toList) snippets

end Lox.Report
